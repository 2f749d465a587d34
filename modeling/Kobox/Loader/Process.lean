import Kobox.Loader.ElfReader

namespace Kobox.Loader

open Or

/-- Page size of x86-64, what `page_size` reads from the system. -/
def pageSize : Nat := 4096

def alignUpU64 (value alignment : Nat) : Nat :=
  if alignment=0 then value else maskUp value (alignment-1)

/-- One entry of a symbol provider table; the name may be NULL. -/
structure ShimSymbol where
  name : Option String
  address : Nat

/-- What the loader does not decide: answers by call, the environment, link-time addresses. -/
structure Env where
  mmap : Nat → Nat → Nat → Option Nat
  calloc : Nat → Option Nat
  mprotect : Nat → Bool
  getenv : String → Option String
  shimSymbols : List ShimSymbol
  subsystemSymbols : List (List ShimSymbol)
  kvmSymbols : List ShimSymbol
  kernelGs : Nat
  returnZero : Nat
  staticCallPreserveNoop : Nat
  usbControlMsgEntry : Nat
  externalCallTrampoline : Nat
  dmaOps : Nat
  pageOffsetBase : Nat
  vmemmapBase : Nat
  physBase : Nat

/-- Live mappings, live module records and the numbers of calls made so far. -/
structure Process where
  mappings : List (Nat × Nat)
  records : List Nat
  mmapCalls : Nat
  callocCalls : Nat
  mprotectCalls : Nat
  nextModuleHint : Nat

def Process.start : Process := ⟨[],[],0,0,0,0x40000000⟩

def userTop : Nat := 2^47

/-- A place the kernel may choose for a new mapping. -/
def Process.Free (p : Process) (a len : Nat) : Prop :=
  a≠0 ∧ a%pageSize=0 ∧ a+len≤userTop ∧ ∀ m∈p.mappings,a+len ≤ m.1 ∨ m.1+m.2≤a

instance (p : Process) (a len : Nat) : Decidable (p.Free a len) :=
  inferInstanceAs (Decidable (_ ∧ _ ∧ _ ∧ _))

/-- The kernel follows the environment's choice only where nothing is mapped. -/
def mmap (env : Env) (hint len : Nat) (p : Process) : Option Nat × Process :=
  let q := { p with mmapCalls := p.mmapCalls+1 }
  match env.mmap p.mmapCalls hint len with
  | none => (none,q)
  | some a =>
    if len≠0 ∧ p.Free a len then (some a,{ q with mappings := (a,len)::p.mappings })
    else (none,q)

def munmap (a len : Nat) (p : Process) : Process :=
  { p with mappings := p.mappings.erase (a,len) }

/-- The hinted attempts of `alloc_section_memory`, then the one without a hint. -/
def allocAttempts (env : Env) (roundedSize : Nat) : Nat → Process → Nat × Process
  | 0,p =>
    match mmap env 0 roundedSize p with
    | (some a,q) => (a,q)
    | (none,q) => (0,q)
  | attempts+1,p =>
    let hint := if p.nextModuleHint<0x40000000 ∨ 0x78000000≤p.nextModuleHint then 0x40000000
      else p.nextModuleHint
    match mmap env hint roundedSize { p with nextModuleHint := hint+0x02000000 } with
    | (none,q) => allocAttempts env roundedSize attempts q
    | (some a,q) =>
      if 0x40000000≤a ∧ a<0x78000000 then (a,q)
      else allocAttempts env roundedSize attempts (munmap a roundedSize q)

/-- Address of a new zeroed mapping, 0 for NULL. -/
def allocSectionMemory (env : Env) (size : Nat) (p : Process) : Nat × Process :=
  if size=0 then (0,p) else allocAttempts env (alignUpU64 size pageSize) 16 p

def freeSectionMemory (memory size : Nat) (p : Process) : Process :=
  if memory=0 ∨ size=0 then p else munmap memory (alignUpU64 size pageSize) p

/-- `calloc` of a module record: the address is not one of a live record. -/
def callocRecord (env : Env) (p : Process) : Nat × Process :=
  let q := { p with callocCalls := p.callocCalls+1 }
  match env.calloc p.callocCalls with
  | none => (0,q)
  | some a => if a≠0 ∧ a∉p.records then (a,{ q with records := a::p.records }) else (0,q)

/-- Any other `calloc` or `malloc`, of which only the address matters. -/
def calloc (env : Env) (p : Process) : Nat × Process :=
  ((env.calloc p.callocCalls).getD 0,{ p with callocCalls := p.callocCalls+1 })

def freeRecord (a : Nat) (p : Process) : Process := { p with records := p.records.erase a }

def mprotect (env : Env) (p : Process) : Bool × Process :=
  (env.mprotect p.mprotectCalls,{ p with mprotectCalls := p.mprotectCalls+1 })

variable {p q : Process} {env : Env}

theorem mmap_some {hint len a : Nat} (h : mmap env hint len p=(some a,q)) :
    p.Free a len ∧ q.mappings=(a,len)::p.mappings ∧ q.records=p.records := by
  unfold mmap at h
  split at h
  · cases h
  split at h
  · next hf =>
    cases h
    exact ⟨hf.2,rfl,rfl⟩
  · cases h

theorem mmap_none {hint len : Nat} (h : mmap env hint len p=(none,q)) :
    q.mappings=p.mappings ∧ q.records=p.records := by
  unfold mmap at h
  split at h
  · cases h
    exact ⟨rfl,rfl⟩
  · split at h
    · cases h
    · cases h
      exact ⟨rfl,rfl⟩

/-- What an allocation leaves: no new mapping, or one in a free place. -/
structure Mapped (p : Process) (len a : Nat) (q : Process) : Prop where
  records : q.records=p.records
  place : (a=0 ∧ q.mappings=p.mappings) ∨ (p.Free a len ∧ q.mappings=(a,len)::p.mappings)

theorem allocAttempts_mapped {len attempts : Nat} (p : Process) :
    Mapped p len (allocAttempts env len attempts p).1 (allocAttempts env len attempts p).2 := by
  induction attempts generalizing p with
  | zero =>
    rw [allocAttempts]
    rcases h : mmap env 0 len p with ⟨r,q⟩
    cases r with
    | none =>
      obtain ⟨hm,hr⟩ := mmap_none h
      exact ⟨hr,inl ⟨rfl,hm⟩⟩
    | some a =>
      obtain ⟨hf,hm,hr⟩ := mmap_some h
      exact ⟨hr,inr ⟨hf,hm⟩⟩
  | succ attempts ih =>
    rw [allocAttempts]
    split
    · next q h =>
      obtain ⟨hm,hr⟩ := mmap_none h
      have hi := ih q
      refine ⟨hi.records.trans hr,?_⟩
      rcases hi.place with ⟨h0,hq⟩|⟨hf,hq⟩
      · exact inl ⟨h0,hq.trans hm⟩
      · refine inr ⟨?_,hq.trans (by rw [hm])⟩
        unfold Process.Free at hf ⊢
        rw [hm] at hf
        exact hf
    · next a q h =>
      obtain ⟨hf,hm,hr⟩ := mmap_some h
      split
      · exact ⟨hr,inr ⟨hf,hm⟩⟩
      have he : (munmap a len q).mappings=p.mappings := by
        unfold munmap
        rw [hm]
        exact List.erase_cons_head ..
      have hi := ih (munmap a len q)
      refine ⟨hi.records.trans hr,?_⟩
      rcases hi.place with ⟨h0,hq⟩|⟨hf2,hq⟩
      · exact inl ⟨h0,hq.trans he⟩
      · refine inr ⟨?_,hq.trans (by rw [he])⟩
        unfold Process.Free at hf2 ⊢
        rw [he] at hf2
        exact hf2

theorem allocMemory_mapped {env : Env} {size : Nat} {p : Process} :
    Mapped p (alignUpU64 size pageSize) (allocSectionMemory env size p).1
      (allocSectionMemory env size p).2 := by
  unfold allocSectionMemory
  split
  · exact ⟨rfl,inl ⟨rfl,rfl⟩⟩
  · exact allocAttempts_mapped p

theorem callocRecord_fresh {a : Nat} (ha : a≠0) (h : callocRecord env p=(a,q)) :
    a∉p.records ∧ q.records=a::p.records ∧ q.mappings=p.mappings := by
  unfold callocRecord at h
  split at h
  · cases h
    exact absurd rfl ha
  split at h
  · next hc =>
    cases h
    exact ⟨hc.2,rfl,rfl⟩
  · cases h
    exact absurd rfl ha

end Kobox.Loader
