import Kobox.Loader.Relocation

namespace Kobox.Loader

def eachSymbol (body : Nat → Nat → Symbol → Prog Load Status Unit) : Prog Load Status Unit := do
  let s ← Prog.get
  let elf := s.module.elf
  Prog.loopFrom (fun sectionIndex => do
    let sec ← Prog.ofExcept (kbElfSection elf sectionIndex).val
    if !isSymbolTable sec.type then return ()
    else
      let count ← Prog.ofExcept (kbElfSymbolCount elf sectionIndex).val
      Prog.loopFrom (fun symbolIndex => do
        let symbol ← Prog.ofExcept (kbElfSymbol elf sectionIndex symbolIndex).val
        body sectionIndex symbolIndex symbol) 0 count) 0 (kbElfSectionCount elf)

def symbolIsStaticTraceCall (symbol : Symbol) : Bool :=
  "__SCT__tp_func_".toList.isPrefixOf symbol.name.text.toList

/-- Bytes of the return that replaces a trace call: at most 8, within symbol and section. -/
def tracePatchSize (loadedSize value symbolSize : Nat) : Nat :=
  let remaining := loadedSize-value
  let size := if symbolSize≠0 ∧ symbolSize < remaining then symbolSize else remaining
  if 8<size then 8 else size

def patchStaticTraceCall (symbol : Symbol) : Prog Load Status Unit := do
  let s ← Prog.get
  if !symbolIsStaticTraceCall symbol ∨ symbol.sectionIndex=Elf.shnUndef ∨
      s.module.sectionCount ≤ symbol.sectionIndex then return ()
  else
    let target ← Prog.ofExcept (kbElfSection s.module.elf symbol.sectionIndex).val
    let loaded := s.module.sections symbol.sectionIndex
    if loaded.base=0 ∨ !Elf.shfExecinstr target.flags ∨ loaded.size ≤ symbol.value then return ()
    else
      let size := tracePatchSize loaded.size symbol.value symbol.size
      Prog.modify (Load.onModule (KbModule.storeSection symbol.sectionIndex symbol.value
        (0xc3::List.replicate (size-1) 0x90)))

def patchModuleStaticTraceCalls : Prog Load Status Unit :=
  eachSymbol fun _ _ symbol => patchStaticTraceCall symbol

def moduleBackendIsPachaos (env : Env) : Bool :=
  env.getenv "KOBOX_DEVICE_BACKEND"==some "pachaos" ||
    env.getenv "KOBOX_DEVICE_BACKEND"==some "pachaos_capsule"

def xhciHelperSuffix : List UInt8 :=
  [0x55,0x48,0x89,0xe5,0x53,0x48,0x89,0xfb,0x66,0x90,0x66,0x90,0x48,0x8b,0x53,0x28,0x31,0xc0,
    0x89,0x02,0x48,0x8b,0x43,0x28,0x8b,0x00]

/-- The command-doorbell helper starts at this image offset: a call or five NOPs, then the
suffix. -/
def xhciHelperMatches (image : Bytes) (code remaining : Nat) : Bool :=
  decide (5+xhciHelperSuffix.length ≤ remaining) &&
    (image code==0xe8 || (List.range 5).all fun k => image (code+k)==0x90) &&
    (List.range xhciHelperSuffix.length).all fun k =>
      image (code+5+k)==xhciHelperSuffix.getD k 0

def patchDoorbellAt (stub i offset : Nat) : Prog Load Status Unit := fun s =>
  let sec := s.module.sections i
  if !xhciHelperMatches s.module.image (sec.offset+offset) (sec.size-offset) then (.ok (),s)
  else
    let rel := wordSub stub ((sec.base+offset+5)%wordSize)
    if !valueFitsI32 rel then (.error .unsupported,s)
    else (.ok (),s.onModule (KbModule.storeSection i offset (0xe9::le32 rel)))

def patchModuleXhciCommandDoorbell (env : Env) : Prog Load Status Unit := do
  let s ← Prog.get
  if !textContains s.module.name "xhci-hcd" ∨ !moduleBackendIsPachaos env then return ()
  else
    let stub ← lookupModuleShimSymbol env "kobox_xhci_ring_cmd_db"
    if stub=0 then Prog.fail .unsupported
    else
      Prog.loopFrom (fun i =>
        let sec := s.module.sections i
        if sec.base=0 ∨ sec.size=0 ∨ !Elf.shfExecinstr sec.flags then return ()
        else Prog.loopFrom (patchDoorbellAt stub i) 0 (sec.size+1-31)) 0 s.module.sectionCount

/-- One symbol of `register_module_exports`; a symbol that does not resolve is skipped. -/
def registerExport (env : Env) (sectionIndex symbolIndex : Nat) (symbol : Symbol) :
    Prog Load Status Unit := fun s =>
  if symbol.binding≠Elf.stbGlobal ∨ symbol.sectionIndex=Elf.shnUndef ∨ symbol.name.text="" then
    (.ok (),s)
  else
    match resolveSymbol env s.module sectionIndex symbolIndex with
    | .error _ => (.ok (),s)
    | .ok address =>
      let r := addExport s.globals.registry (some symbol.name.text) address s.module.self
      (r.1,s.onGlobals fun g => { g with registry := r.2 })

def registerModuleExports (env : Env) : Prog Load Status Unit := eachSymbol (registerExport env)

/-- First symbol of that name in the tables, section by section. -/
def findSymbolFrom (m : KbModule) (name : String) (sectionIndex : Nat) :
    Nat → Nat → Except Status (Option Nat)
  | _,0 => .ok none
  | k,n+1 =>
    match (kbElfSymbol m.elf sectionIndex k).val with
    | .error e => .error e
    | .ok symbol =>
      if symbol.name.text=name then .ok (some k) else findSymbolFrom m name sectionIndex (k+1) n

def findSymbolAddressFrom (env : Env) (m : KbModule) (name : String) : Nat → Nat → Except Status Nat
  | _,0 => .error .notFound
  | i,n+1 =>
    match (kbElfSection m.elf i).val with
    | .error e => .error e
    | .ok sec =>
      if !isSymbolTable sec.type then findSymbolAddressFrom env m name (i+1) n
      else
        match (kbElfSymbolCount m.elf i).val with
        | .error e => .error e
        | .ok count =>
          match findSymbolFrom m name i 0 count with
          | .error e => .error e
          | .ok (some k) => resolveSymbol env m i k
          | .ok none => findSymbolAddressFrom env m name (i+1) n

def findSymbolAddress (env : Env) (m : KbModule) (name : String) : Except Status Nat :=
  findSymbolAddressFrom env m name 0 (kbElfSectionCount m.elf)

def findEntry (env : Env) (name : String) : Prog Load Status Nat := fun s =>
  match findSymbolAddress env s.module name with
  | .ok address => (.ok address,s)
  | .error e => if e=.notFound then (.ok 0,s) else (.error e,s)

def findEntries (env : Env) : Prog Load Status Unit := do
  let init ← findEntry env "init_module"
  Prog.modify (Load.onModule fun m => { m with initModule := init })
  let cleanup ← findEntry env "cleanup_module"
  Prog.modify (Load.onModule fun m => { m with cleanupModule := cleanup })

def nativeProt (protection : Nat) : Prot :=
  if protection=2 then .readExec else if protection=1 then .readWrite else .read

/-- `mprotect` on the image range [start,start+len), in whole pages. -/
def protectRange (env : Env) (start len : Nat) (prot : Prot) : Prog Load Status Unit := fun s =>
  let r := mprotect env s.globals.process
  let t := s.onGlobals fun g => { g with process := r.2 }
  if !r.1 then (.error .unsupported,t)
  else
    (.ok (),t.onModule fun m =>
      { m with protection := fun page =>
          if start≤page*pageSize ∧ page*pageSize<start+len then prot else m.protection page })

/-- The run of sections of one protection that is being collected. -/
structure ProtectionRun where
  start : Nat
  stop : Nat
  protection : Option Nat

def flushRun (env : Env) (run : ProtectionRun) : Prog Load Status Unit :=
  match run.protection with
  | none => return ()
  | some protection =>
    protectRange env run.start (wordSub run.stop run.start) (nativeProt protection)

/-- One section of the protection pass: extend the run or start a new one. -/
def protectSection (env : Env) (sec : LoadedSection) (run : ProtectionRun) :
    Prog Load Status ProtectionRun :=
  if sec.base=0 ∨ sec.size=0 then return run
  else
    let start := sec.offset &&& wordNot (pageSize-1)
    let stop := alignUpU64 ((sec.offset+sec.size)%wordSize) pageSize
    let protection := sectionProtection sec.flags
    if run.protection=some protection ∧ start ≤ run.stop then
      return { run with stop := if run.stop<stop then stop else run.stop }
    else do
      flushRun env run
      return ⟨start,stop,some protection⟩

def protectSections (env : Env) : Nat → Nat → ProtectionRun → Prog Load Status ProtectionRun
  | _,0,run => return run
  | i,n+1,run => do
    let s ← Prog.get
    let next ← protectSection env (s.module.sections i) run
    protectSections env (i+1) n next

def finalizeSectionProtections (env : Env) : Prog Load Status Unit := do
  let s ← Prog.get
  protectRange env 0 (alignUpU64 s.module.imageSize pageSize) .read
  let run ← protectSections env 0 s.module.sectionCount ⟨0,0,none⟩
  flushRun env run
  protectRange env s.module.shimRegionOffset shimDataOffset .readExec
  protectRange env (s.module.shimRegionOffset+shimDataOffset) shimDataSize .readWrite

/-- The stages between the relocations and the page protections. -/
def patchAndExport (env : Env) : Prog Load Status Unit := do
  patchModuleStaticTraceCalls
  patchModuleXhciCommandDoorbell env
  registerModuleExports env
  findEntries env

def prepareModule (env : Env) : Prog Load Status Unit := do
  loadSections env
  applyRelocations env
  patchAndExport env
  finalizeSectionProtections env

end Kobox.Loader
