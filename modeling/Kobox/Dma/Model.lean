import Kobox.Framework.Run
import Kobox.Framework.Word

namespace Kobox.Dma

def pageSize : Nat := 4096

def mappingMaxPages : Nat := 512

inductive Direction
  | bidirectional
  | toDevice
  | fromDevice
  deriving DecidableEq

inductive Status
  | ok
  | invalid
  | notFound
  | denied
  | nomem
  | io
  | unsupported
  | pciConfig
  deriving DecidableEq

/-- The device addresses a caller was given: one for the whole range, or one for every page. -/
inductive Extent
  | whole (dma : Nat)
  | pages (table : List Nat)
  deriving DecidableEq

def Extent.first : Extent → Nat
  | .whole dma => dma
  | .pages table => table.headD 0

/-- handed is what the caller got; the record keeps only its first address. Null pointers are 0. -/
structure Mapping where
  cpuAddr : Nat
  dmaAddr : Nat
  size : Nat
  device : Nat
  borrowedWindow : Bool
  persistentAllocation : Bool
  handed : Extent
  deriving DecidableEq

structure Window where
  backend : Nat := 0
  device : Nat := 0
  scopeStart : Nat := 0
  scopeSize : Nat := 0
  direction : Direction := .bidirectional
  mappedStart : Nat := 0
  mappedSize : Nat := 0
  mappedPageCount : Nat := 0
  pageDma : List Nat := []
  borrowers : Nat := 0
  active : Bool := false
  mapped : Bool := false
  deriving DecidableEq

inductive Owner
  | window
  | caller
  deriving DecidableEq

/-- The calls that reach a backend and succeed there. -/
inductive BackendCall
  | mapped (owner : Owner) (device cpuAddr size : Nat) (direction : Direction) (extent : Extent)
  | unmapped (owner : Owner) (device dmaAddr size : Nat) (direction : Direction)
  | allocated (device cpuAddr dmaAddr size : Nat)
  | freed (device cpuAddr dmaAddr size : Nat)
  deriving DecidableEq

/-- `dma_mappings`, newest first, `dma_window`, and the calls made so far, newest first. -/
structure State where
  mappings : List Mapping := []
  window : Window := {}
  calls : List BackendCall := []
  deriving DecidableEq

structure Ops where
  dmaAlloc : Bool
  dmaFree : Bool
  dmaMap : Bool
  dmaMapPages : Bool
  dmaMapFixed : Bool
  dmaUnmap : Bool

/-- `kb_device_backend_get_ops`, and the device a backend lists first. -/
structure Env where
  getOps : Nat → Option Ops
  deviceAt : Nat → Nat

def Env.has (env : Env) (op : Ops → Bool) (backend : Nat) : Bool := (env.getOps backend).any op

/-- What the outside answers during one call: the backend, and the allocator of records. -/
structure Answer where
  mapPages : (device cpuAddr size : Nat) → Direction → Except Status (List Nat)
  map : (device cpuAddr size : Nat) → Direction → Except Status Nat
  mapFixed : Status
  alloc : (device size : Nat) → Except Status (Nat × Nat × Nat)
  entry : Bool

def dmaDefaultDevice (env : Env) (backend : Nat) : Nat :=
  if (env.getOps backend).isSome then env.deviceAt backend else 0

def orDefault (env : Env) (backend device : Nat) : Nat :=
  if device=0 then dmaDefaultDevice env backend else device

def rememberDmaMappingFull (s : State) (m : Mapping) (entry : Bool) : Status × State :=
  if m.cpuAddr=0 ∨ m.size=0 then (.invalid,s)
  else if !entry then (.nomem,s)
  else (.ok,{s with mappings := m::s.mappings})

def Mapping.at (device dmaAddr : Nat) (m : Mapping) : Bool := m.device=device && m.dmaAddr=dmaAddr

def takeDmaMapping (s : State) (device dmaAddr : Nat) : Option Mapping × State :=
  (s.mappings.find? (Mapping.at device dmaAddr),
    {s with mappings := s.mappings.eraseP (Mapping.at device dmaAddr)})

def State.call (s : State) (c : BackendCall) : State := {s with calls := c::s.calls}

def dmaWindowReleaseMapping (env : Env) (s : State) : State :=
  if !s.window.mapped ∨ s.window.borrowers≠0 then s
  else
    let s' := if env.has Ops.dmaUnmap s.window.backend then
        s.call (.unmapped .window s.window.device (s.window.pageDma.headD 0) s.window.mappedSize
          s.window.direction)
      else s
    {s' with window := {s.window with
      mapped := false,mappedStart := 0,mappedSize := 0,mappedPageCount := 0,pageDma := []}}

def State.clearWindow (s : State) : State := {s with window := {}}

structure Scope where
  backend : Nat
  device : Nat
  cpuAddr : Nat
  size : Nat
  direction : Direction
  deriving DecidableEq

def dmaWindowBeginCommon (env : Env) (s : State) (a : Scope) : Status × State :=
  if a.backend=0 ∨ a.cpuAddr=0 ∨ a.size=0 ∨ s.window.active then (.invalid,s)
  else
    let device := orDefault env a.backend a.device
    if device=0 ∨ !env.has Ops.dmaMapPages a.backend ∨ !env.has Ops.dmaUnmap a.backend ∨
        wordSize-1-a.size<a.cpuAddr then (.invalid,s)
    else
      let w := s.window
      let s1 := if w.mapped ∧ (a.backend≠w.backend ∨ device≠w.device ∨ a.direction≠w.direction ∨
          a.cpuAddr≠w.mappedStart) then dmaWindowReleaseMapping env s else s
      let s2 := if !s1.window.mapped then s1.clearWindow else s1
      (.ok,{s2 with window := {s2.window with
        backend := a.backend,device := device,scopeStart := a.cpuAddr,scopeSize := a.size,
        direction := a.direction,active := true}})

def dmaWindowBegin (env : Env) (s : State) (a : Scope) : Status × State :=
  let s' := if s.window.mapped ∧ !s.window.active then
    (dmaWindowReleaseMapping env s).clearWindow else s
  dmaWindowBeginCommon env s' a

def dmaCachedWindowBegin (env : Env) (s : State) (a : Scope) : Status × State :=
  dmaWindowBeginCommon env s a

def dmaWindowEnd (env : Env) (s : State) : State :=
  if !s.window.active ∨ s.window.borrowers≠0 then s
  else (dmaWindowReleaseMapping env s).clearWindow

def dmaCachedWindowEnd (s : State) : State :=
  if !s.window.active ∨ s.window.borrowers≠0 then s
  else {s with window := {s.window with active := false,scopeStart := 0,scopeSize := 0}}

def dmaCachedWindowDiscard (env : Env) (s : State) : State :=
  if s.window.active ∨ s.window.borrowers≠0 then s
  else (dmaWindowReleaseMapping env s).clearWindow

def pageCount (size : Nat) : Nat := size/pageSize+(if size%pageSize≠0 then 1 else 0)

/-- The arguments of a page mapping; device is never null where it is used. -/
structure Request where
  backend : Nat
  device : Nat
  cpuAddr : Nat
  size : Nat
  direction : Direction
  capacity : Nat
  deriving DecidableEq

/-- The request lies in the scope of the active window and starts a page there. -/
def Window.serves (w : Window) (r : Request) : Bool :=
  w.active && r.backend=w.backend && r.device=w.device && r.direction=w.direction &&
    r.cpuAddr≤wordSize-1-r.size && w.scopeStart ≤ r.cpuAddr &&
    r.cpuAddr+r.size≤w.scopeStart+w.scopeSize && r.cpuAddr%pageSize=0

def Window.reuses (w : Window) (r : Request) : Bool :=
  w.mapped && w.mappedStart ≤ r.cpuAddr && r.cpuAddr+r.size≤w.mappedStart+w.mappedSize

def tableSlice (table : List Nat) (first count : Nat) : List Nat :=
  (List.range count).map fun i => table.getD (first+i) 0

/-- The end of `dma_window_map_pages`, with the window mapped. -/
def dmaWindowLend (s : State) (r : Request) (entry : Bool) : Except Status (List Nat) × State :=
  let w := s.window
  let first := (r.cpuAddr-w.mappedStart)/pageSize
  if w.mappedPageCount<first ∨ w.mappedPageCount-first<pageCount r.size then (.error .invalid,s)
  else
    let table := tableSlice w.pageDma first (pageCount r.size)
    match rememberDmaMappingFull s
      ⟨r.cpuAddr,table.headD 0,r.size,r.device,true,false,.pages table⟩ entry with
    | (.ok,s') =>
      (.ok table,{s' with window := {s'.window with borrowers := s'.window.borrowers+1}})
    | (status,s') => (.error status,s')

def Window.mapSize (w : Window) (r : Request) : Nat :=
  min (w.scopeStart+w.scopeSize-r.cpuAddr) (mappingMaxPages*pageSize)

/-- `dma_window_map_pages`; none where the window is not used. -/
def dmaWindowMapPages (env : Env) (s : State) (r : Request) (ans : Answer) :
    Option (Except Status (List Nat)) × State :=
  if !s.window.serves r then (none,s)
  else if pageCount r.size=0 ∨ r.capacity<pageCount r.size ∨ mappingMaxPages<pageCount r.size then
    (some (.error .unsupported),s)
  else if s.window.reuses r then
    let (result,s') := dmaWindowLend s r ans.entry
    (some result,s')
  else if s.window.borrowers≠0 then (some (.error .invalid),s)
  else
    let s1 := dmaWindowReleaseMapping env s
    let mapSize := s1.window.mapSize r
    if mapSize < r.size then (some (.error .unsupported),s1)
    else if !env.has Ops.dmaMapPages r.backend then (some (.error .unsupported),s1)
    else match ans.mapPages r.device r.cpuAddr mapSize r.direction with
      | .error status => (some (.error status),s1)
      | .ok table =>
        let s2 := s1.call (.mapped .window r.device r.cpuAddr mapSize r.direction (.pages table))
        let s3 := {s2 with window := {s2.window with
          mappedStart := r.cpuAddr,mappedSize := mapSize,mappedPageCount := pageCount mapSize,
          pageDma := table,mapped := true}}
        let (result,s4) := dmaWindowLend s3 r ans.entry
        (some result,s4)

/-- The record is made, or the backend's mapping is taken back. -/
def keepMapping (env : Env) (s : State) (backend : Nat) (direction : Direction) (m : Mapping)
    (entry : Bool) : Status × State :=
  match rememberDmaMappingFull s m entry with
  | (.ok,s') => (.ok,s')
  | (status,s') =>
    (status,if env.has Ops.dmaUnmap backend then
      s'.call (.unmapped .caller m.device m.dmaAddr m.size direction) else s')

def dmaMapPages (env : Env) (s : State) (r0 : Request) (ans : Answer) :
    Except Status (List Nat) × State :=
  if r0.backend=0 ∨ r0.cpuAddr=0 ∨ r0.size=0 ∨ r0.capacity=0 then (.error .invalid,s)
  else
    let r := {r0 with device := orDefault env r0.backend r0.device}
    if r.device=0 then (.error .invalid,s)
    else if !env.has Ops.dmaMapPages r.backend then (.error .unsupported,s)
    else match dmaWindowMapPages env s r ans with
      | (some result,s') => (result,s')
      | (none,s1) =>
        match ans.mapPages r.device r.cpuAddr r.size r.direction with
        | .error status => (.error status,s1)
        | .ok table =>
          let s2 := s1.call (.mapped .caller r.device r.cpuAddr r.size r.direction (.pages table))
          match keepMapping env s2 r.backend r.direction
            ⟨r.cpuAddr,table.headD 0,r.size,r.device,false,false,.pages table⟩ ans.entry with
          | (.ok,s3) => (.ok table,s3)
          | (status,s3) => (.error status,s3)

def dmaUnmap (env : Env) (s : State) (backend device0 dmaAddr size : Nat)
    (direction : Direction) : State :=
  if backend=0 ∨ size=0 then s
  else
    let device := orDefault env backend device0
    let (mapping,s1) := takeDmaMapping s device dmaAddr
    if mapping.any (·.borrowedWindow) then
      {s1 with window := {s1.window with borrowers := s1.window.borrowers-1}}
    else if device≠0 ∧ env.has Ops.dmaUnmap backend then
      s1.call (.unmapped .caller device dmaAddr size direction)
    else s1

/-- `dma_map_with_lifetime`; the address 0 is the mapping error. -/
def dmaMapWithLifetime (env : Env) (s : State) (r0 : Request) (persistent : Bool)
    (ans : Answer) : Except Status Nat × State :=
  if r0.backend=0 ∨ r0.cpuAddr=0 ∨ r0.size=0 then (.error .invalid,s)
  else
    let device := orDefault env r0.backend r0.device
    if device=0 then (.error .invalid,s)
    else if !env.has Ops.dmaMap r0.backend ∨
        (persistent ∧ !env.has Ops.dmaUnmap r0.backend) then (.error .unsupported,s)
    else match ans.map device r0.cpuAddr r0.size r0.direction with
      | .error status => (.error status,s)
      | .ok dma =>
        let s1 := s.call (.mapped .caller device r0.cpuAddr r0.size r0.direction (.whole dma))
        if dma=0 then
          (.error .io,if env.has Ops.dmaUnmap r0.backend then
            s1.call (.unmapped .caller device dma r0.size r0.direction) else s1)
        else match keepMapping env s1 r0.backend r0.direction
          ⟨r0.cpuAddr,dma,r0.size,device,false,persistent,.whole dma⟩ ans.entry with
          | (.ok,s2) => (.ok dma,s2)
          | (status,s2) => (.error status,s2)

def dmaMap (env : Env) (s : State) (r : Request) (ans : Answer) : Except Status Nat × State :=
  dmaMapWithLifetime env s r false ans

def dmaMapPersistentBidirectional (env : Env) (s : State) (r : Request) (ans : Answer) :
    Except Status Nat × State :=
  dmaMapWithLifetime env s {r with direction := .bidirectional} true ans

def dmaMapFixed (env : Env) (s : State) (r : Request) (dmaAddr : Nat) (ans : Answer) :
    Status × State :=
  if r.backend=0 ∨ r.cpuAddr=0 ∨ r.size=0 then (.invalid,s)
  else
    let device := orDefault env r.backend r.device
    if device=0 then (.invalid,s)
    else if !env.has Ops.dmaMapFixed r.backend then (.unsupported,s)
    else match ans.mapFixed with
      | .ok =>
        keepMapping env
          (s.call (.mapped .caller device r.cpuAddr r.size r.direction (.whole dmaAddr))) r.backend
          r.direction ⟨r.cpuAddr,dmaAddr,r.size,device,false,false,.whole dmaAddr⟩ ans.entry
      | status => (status,s)

/-- `kb_subsystem_dma_alloc`; the buffer is given by its two addresses and its size. -/
def dmaAlloc (env : Env) (s : State) (backend device0 size : Nat) (ans : Answer) :
    Option (Nat × Nat) × State :=
  if backend=0 ∨ size=0 then (none,s)
  else
    let device := orDefault env backend device0
    if device=0 then (none,s)
    else if !env.has Ops.dmaAlloc backend then (none,s)
    else match ans.alloc device size with
      | .error _ => (none,s)
      | .ok (cpu,dma,got) =>
        let s1 := s.call (.allocated device cpu dma got)
        match rememberDmaMappingFull s1 ⟨cpu,dma,got,device,false,true,.whole dma⟩ ans.entry with
        | (.ok,s2) => (some (cpu,dma),s2)
        | (_,s2) =>
          (none,if env.has Ops.dmaFree backend then s2.call (.freed device cpu dma got) else s2)

def Mapping.isBuffer (cpuAddr dmaAddr : Nat) (m : Mapping) : Bool :=
  m.cpuAddr=cpuAddr && m.dmaAddr=dmaAddr

def dmaFree (env : Env) (s : State) (backend size cpuAddr dmaAddr : Nat) : State :=
  match s.mappings.find? (Mapping.isBuffer cpuAddr dmaAddr) with
  | none => s
  | some m =>
    let s1 := {s with mappings := s.mappings.eraseP (Mapping.isBuffer cpuAddr dmaAddr)}
    if env.has Ops.dmaFree backend then
      s1.call (.freed m.device m.cpuAddr m.dmaAddr (if size=0 then m.size else size))
    else s1

/-- The record holds the device address; the end of its range is a 64-bit sum. -/
def Mapping.covers (dmaAddr : Nat) (m : Mapping) : Bool :=
  m.dmaAddr≤dmaAddr && dmaAddr<(m.dmaAddr+m.size)%wordSize

/-- `kb_subsystem_dma_cpu_addr`, with the number of bytes left in the mapping. -/
def dmaCpuAddr (s : State) (dmaAddr : Nat) : Option (Nat × Nat) :=
  (s.mappings.find? (Mapping.covers dmaAddr)).map fun m =>
    (m.cpuAddr+(dmaAddr-m.dmaAddr),m.size-(dmaAddr-m.dmaAddr))

end Kobox.Dma
