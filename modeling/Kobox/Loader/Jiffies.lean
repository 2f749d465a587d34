import Kobox.Loader.Stages

namespace Kobox.Loader

open List Prog Moves Elf Env

/-! The counter that the deferred-work clock keeps in the images of modules. -/

/-- The counter is stored through one address: the bytes of it that lie in the image of m. -/
def KbModule.storeWord (m : KbModule) (address value : Nat) (image : Bytes) : Bytes := fun off =>
  if off < m.imageSize ∧ address ≤ m.imageBase+off ∧ m.imageBase+off<address+8 then
    (le64 value).getD (m.imageBase+off-address) 0
  else image off

def refreshImage (storages : Nat → Nat) (value : Nat) (m : KbModule) : Bytes :=
  (List.range jiffiesStorageMax).foldl (fun image i =>
    if storages i≠0 then m.storeWord (storages i) value image else image) m.image

/-- `refresh_linux_jiffies`, as far as it reaches loaded modules. -/
def refreshLinuxJiffies (value : Nat) (g : Globals) : Globals :=
  {g with loaded := g.loaded.map fun m => {m with image := refreshImage g.jiffiesStorages value m}}

/-- Loads, closes and other events of the loader, each with the counter of its time, and refreshes
in between. -/
inductive ClockEvent
  | loader (e : Event) (value : Nat)
  | refresh (value : Nat)

def clockStep (env : Env) (g : Globals) : ClockEvent → Globals
  | .loader e value =>
    let h := step env g e
    -- the refresh that a registration makes, moved to the end of its load
    if h.refreshes=g.refreshes then h else refreshLinuxJiffies value h
  | .refresh value => refreshLinuxJiffies value g

def inJiffiesWord (m : KbModule) (off : Nat) : Prop :=
  m.shimRegionOffset+jiffiesOffset≤off ∧ off < m.shimRegionOffset+jiffiesOffset+8

/-- A byte of the pv_ops table, which `load_sections` fills to its 512th byte. -/
def inPvOps (m : KbModule) (off : Nat) : Prop :=
  m.shimRegionOffset+pvOpsOffset≤off ∧ off < m.shimRegionOffset+pvOpsOffset+512

/-- Every slot is in the image of a loaded module, and a refresh changes nothing but its jiffies
word. -/
structure Confined (g : Globals) : Prop where
  owned : ∀ i<jiffiesStorageMax,g.jiffiesStorages i≠0 → ∃ m∈g.loaded,
    g.jiffiesStorages i=m.shimAddress jiffiesOffset ∧ m.imageBase≤g.jiffiesStorages i ∧
      g.jiffiesStorages i+8 ≤ m.imageBase+m.imageSize
  spared : ∀ value,∀ m∈g.loaded,∀ off,refreshImage g.jiffiesStorages value m off≠m.image off →
    inJiffiesWord m off ∧ ¬inPvOps m off

variable {m : KbModule}

theorem jiffiesWord_in_pvOps {off : Nat} (h : inJiffiesWord m off) : inPvOps m off := by
  have hoff : jiffiesOffset=pvOpsOffset+256 := rfl
  unfold inJiffiesWord at h
  unfold inPvOps
  omega

theorem refreshImage_covered {storages : Nat → Nat} {value : Nat} {b : UInt8} {off : Nat}
    (hb : ∀ k<8,(le64 value).getD k 0=b) (hoff : off < m.imageSize)
    (h : ∃ i<jiffiesStorageMax,storages i≠0 ∧ storages i ≤ m.imageBase+off ∧ m.imageBase+off<storages i+8)
    : refreshImage storages value m off=b := by
  have hfold : ∀ (is : List Nat) (image : Bytes),
      (image off=b ∨ ∃ i∈is,storages i≠0 ∧ storages i ≤ m.imageBase+off ∧
        m.imageBase+off<storages i+8) →
      is.foldl (fun image i =>
        if storages i≠0 then m.storeWord (storages i) value image else image) image off=b := by
    intro is
    induction is with
    | nil =>
      intro image h
      simpa using h
    | cons i is ih =>
      intro image h
      rw [foldl_cons]
      by_cases hi : storages i≠0 ∧ storages i ≤ m.imageBase+off ∧ m.imageBase+off<storages i+8
      · refine ih _ (.inl ?_)
        rw [if_pos hi.1,KbModule.storeWord,if_pos ⟨hoff,hi.2⟩]
        exact hb _ (by omega)
      refine ih _ ?_
      rcases h with h | ⟨j,hj,hcov⟩
      · left
        split
        · next h0 => rw [KbModule.storeWord,if_neg fun hc => hi ⟨h0,hc.2⟩,h]
        · exact h
      · rcases mem_cons.mp hj with rfl | hj
        · exact absurd hcov hi
        · exact .inr ⟨j,hj,hcov⟩
  obtain ⟨i,hi,hcov⟩ := h
  exact hfold _ _ (.inr ⟨i,mem_range.mpr hi,hcov⟩)

theorem refreshImage_unregistered {storages : Nat → Nat} (h : ∀ i<jiffiesStorageMax,storages i=0)
    {value : Nat} (m : KbModule) : refreshImage storages value m=m.image := by
  have hfold : ∀ is : List Nat,(∀ i∈is,i<jiffiesStorageMax) → ∀ image : Bytes,
      is.foldl (fun image i =>
        if storages i≠0 then m.storeWord (storages i) value image else image) image=image := by
    intro is his
    induction is with
    | nil => exact fun _ => rfl
    | cons i is ih =>
      intro image
      simp only [foldl_cons,h i (his i mem_cons_self)]
      exact ih (fun j hj => his j (mem_cons_of_mem _ hj)) image
  exact hfold _ (fun i hi => mem_range.mp hi) m.image

theorem confined_iff (g : Globals) : Confined g ↔ ∀ i<jiffiesStorageMax,g.jiffiesStorages i=0 := by
  constructor
  · intro h i hi
    by_contra h0
    obtain ⟨m,hm,-,hlow,hhigh⟩ := h.owned i hi h0
    obtain ⟨off,hoff⟩ : ∃ off,m.imageBase+off=g.jiffiesStorages i := ⟨_,Nat.add_sub_of_le hlow⟩
    have hcov : ∃ j<jiffiesStorageMax,g.jiffiesStorages j≠0 ∧ g.jiffiesStorages j ≤ m.imageBase+off ∧
        m.imageBase+off<g.jiffiesStorages j+8 := ⟨i,hi,h0,by omega,by omega⟩
    have hkeep : ∀ value,refreshImage g.jiffiesStorages value m off=m.image off := by
      intro value
      by_contra hne
      obtain ⟨hin,hout⟩ := h.spared value m hm off hne
      exact hout (jiffiesWord_in_pvOps hin)
    -- the byte cannot have been 0 and 255 before
    have hzero : refreshImage g.jiffiesStorages 0 m off=0 :=
      refreshImage_covered (by decide) (by omega) hcov
    have hones : refreshImage g.jiffiesStorages (2^64-1) m off=255 :=
      refreshImage_covered (by decide) (by omega) hcov
    rw [hkeep] at hzero hones
    exact absurd (hzero.symm.trans hones) (by decide)
  · intro h
    refine ⟨fun i hi h0 => absurd (h i hi) h0,fun value m _ off hne => ?_⟩
    exact absurd (congrFun (refreshImage_unregistered h m) off) hne

/-- Stages of a load that leave the table of slots alone. -/
def Calm (s t : Load) : Prop :=
  t.module.elf=s.module.elf ∧ t.globals.clock=s.globals.clock

theorem Calm.refl (s : Load) : Calm s s := ⟨rfl,rfl⟩

theorem Calm.trans (a b c : Load) (h : Calm a b) (k : Calm b c) : Calm a c :=
  ⟨k.1.trans h.1,k.2.trans h.2⟩

theorem Calm.shim {s : Load} {g : Globals} (stores : List (Nat × List UInt8))
    (h : g.clock=s.globals.clock) : Calm s ⟨g,s.module.storeShim stores⟩ :=
  ⟨rfl,h⟩

theorem Shimmed.calm {s t : Load} {fixed : Prop} (h : Shimmed fixed s t) : Calm s t :=
  ⟨congrArg Plan.elf h.staged.plan,h.jiffies⟩

theorem currentTask_calm (env : Env) (g : Globals) :
    (kbLoaderCurrentTask env g).2.clock=g.clock := by
  unfold kbLoaderCurrentTask
  split <;> rfl

section

variable (env : Env)

theorem Calm.resolving : Resolving env (fun _ => True) False Calm where
  refl := Calm.refl
  trans := Calm.trans
  elf := fun _ _ h => h.1
  lookup := fun _ h => (lookup_shimmed True env h).mono fun _ _ => Shimmed.calm
  cross := fun s target callerGs calleeGs => by
    refine ⟨?_,rfl⟩
    exact congrArg Plan.elf (allocateCrossStub_patched env s target callerGs calleeGs).plan
  store := fun _ _ _ _ _ _ => ⟨rfl,rfl⟩

theorem layoutStage_calm : Moves Calm layoutStage := by
  intro s
  unfold layoutStage
  split <;> exact ⟨rfl,rfl⟩

theorem mapImage_calm {shimRegionOffset imageSize : Nat} :
    Moves Calm (mapImage env shimRegionOffset imageSize) := by
  intro s
  simp only [mapImage]
  split <;> exact ⟨rfl,rfl⟩

theorem allocateImage_calm {sum : Nat} : Moves Calm (allocateImage env sum) :=
  ite (fun _ => fail Calm.refl _) fun _ => mapImage_calm env

theorem copyContents_elf {i : Nat} {sec : Section} {m : KbModule} :
    (m.copyContents i sec).elf=m.elf := by
  unfold KbModule.copyContents
  split <;> rfl

theorem copyPercpu_calm {m : KbModule} (sec : Section) {g : Globals} :
    (g.copyPercpu m sec).clock=g.clock := by
  unfold Globals.copyPercpu
  split <;> rfl

theorem copySection_calm (i : Nat) : Moves Calm (copySection i) := by
  intro s
  simp only [copySection]
  split
  · exact Calm.refl s
  split
  · exact Calm.refl s
  split
  · exact ⟨rfl,rfl⟩
  split
  · exact Calm.refl s
  split
  · exact ⟨copyContents_elf,rfl⟩
  split
  · exact ⟨copyContents_elf,rfl⟩
  · exact ⟨copyContents_elf,copyPercpu_calm _⟩

theorem captureTemplate_calm : Moves Calm (captureTemplate env) := by
  refine modify fun s => ?_
  have h := currentTask_calm env (sharedCurrentTask env s.globals).2
  simp only
  split <;> exact ⟨rfl,h⟩

theorem loadSections_calm : Moves Calm (loadSections env) := by
  refine bind Calm.trans ?_ fun _ => ?_
  · refine bind Calm.trans layoutStage_calm fun sum => ?_
    exact bind Calm.trans (allocateImage_calm env) fun _ =>
      (fillShim_moves env).mono fun _ _ => Shimmed.calm
  refine bind Calm.trans (modify fun s => Calm.shim _ (currentTask_calm env s.globals)) fun _ => ?_
  refine bind Calm.trans (get_bind fun s => ?_) fun _ =>
    captureTemplate_calm env
  exact loopFrom Calm.refl Calm.trans copySection_calm _ _ s

theorem Exported.calm {s t : Load} (h : Exported s t) : Calm s t := by
  refine ⟨?_,?_⟩
  · rw [h.module]
  · rw [h.globals]
    rfl

theorem Protected.calm {s t : Load} (h : Protected s t) : Calm s t := by
  refine ⟨?_,?_⟩
  · rw [h.module]
  · rw [h.globals]
    rfl

theorem prepareModule_calm {s : Load} (h : ¬Undefines s.module.elf "jiffies") :
    Calm s (prepareModule env s).2 := by
  let R : Load → Load → Prop := fun s t => ¬Undefines s.module.elf "jiffies" → Calm s t
  have htrans : ∀ a b c,R a b → R b c → R a c := by
    intro a b c hab hbc hn
    have hb := hab hn
    exact Calm.trans a b c hb (hbc (hb.1 ▸ hn))
  have hcalm : ∀ s t,Calm s t → R s t := fun _ _ h _ => h
  have hrel : Moves R (applyRelocations env) := fun s hn =>
    applyRelocations_resolving (Calm.resolving env) s (fun _ _ => trivial) hn
  have hpatch : Moves Calm (patchAndExport env) := by
    refine bind Calm.trans (patchStaticTraceCalls_moves (Calm.resolving env)) fun _ => ?_
    refine bind Calm.trans (patchXhciCommandDoorbell_moves (Calm.resolving env)) fun _ => ?_
    refine bind Calm.trans ((registerExports_moves env).mono fun _ _ h => h.calm) fun _ => ?_
    exact (findEntries_moves env).mono fun _ _ h => h.calm
  refine (?_ : Moves R (prepareModule env)) s h
  refine bind htrans ((loadSections_calm env).mono hcalm) fun _ => ?_
  refine bind htrans hrel fun _ => ?_
  refine bind htrans (hpatch.mono hcalm) fun _ => ?_
  exact (finalize_moves env).mono fun _ _ h _ => h.calm

def ModuleImage.Clockless (image : ModuleImage) : Prop :=
  ∀ data elf,image.data=some data → (kbElfOpen data image.size).val=.ok elf →
    ¬Undefines elf "jiffies"

theorem openPrepared_calm (h : ¬Undefines m.elf "jiffies") (g : Globals) :
    (openPrepared env m g).2.clock=g.clock := by
  have hcalm := prepareModule_calm env
    (s := ⟨{g with gs := g.gs.put 0x28 (le64 0x6b6f626f785f6773)},m⟩) h
  unfold openPrepared
  split <;> next hrun =>
    rw [hrun] at hcalm
    exact hcalm.2

theorem openImage_calm {image : ModuleImage} (h : image.Clockless) {backend : Nat} (g : Globals) :
    (kbModuleOpenImage env image backend g).2.clock=g.clock := by
  unfold kbModuleOpenImage
  cases hd : image.data with
  | none => rfl
  | some data =>
    simp only
    split
    · rfl
    split
    · rfl
    split
    · rfl
    split
    · rfl
    unfold openElf
    split
    · rfl
    next elf helf =>
    split
    · rfl
    simp only
    split
    · rfl
    · exact openPrepared_calm env (h data elf hd helf) _

end

def Clockless (_ : Globals) : ClockEvent → Prop
  | .loader (.openImage image _) _ => image.Clockless
  | _ => True

theorem clockStep_calm (env : Env) (g : Globals) (e : ClockEvent) (h : Clockless g e) :
    (clockStep env g e).jiffiesStorages=g.jiffiesStorages := by
  cases e with
  | refresh value => rfl
  | loader e value =>
    have hclock : (step env g e).clock=g.clock := by
      cases e with
      | openImage image backend => exact openImage_calm env h g
      | close self =>
        simp only [step,kbModuleClose]
        split <;> rfl
      | publish task =>
        simp only [step,setCurrentTaskForAllModules]
        split <;> rfl
      | journal handle =>
        simp only [step]
        split <;> rfl
      | gsCallStub target callerGs =>
        simp only [step,kbModuleMakeGsCallStub]
        split
        · rfl
        split <;> rfl
    have hnone : (step env g e).refreshes=g.refreshes := congrArg Prod.snd hclock
    simp only [clockStep,if_pos hnone]
    exact congrArg Prod.fst hclock

/-- If no module has an undefined `jiffies`, refreshes stay within modules and spare their tables. -/
theorem jiffies_confined (env : Env) (events : List ClockEvent)
    (h : Meets (clockStep env) Clockless Globals.start events) (n : Nat) :
    Confined (runAll (clockStep env) Globals.start (events.take n)) := by
  have hstep : ∀ g e,(∀ i<jiffiesStorageMax,g.jiffiesStorages i=0) → Clockless g e →
      ∀ i<jiffiesStorageMax,(clockStep env g e).jiffiesStorages i=0 := by
    intro g e hg he i hi
    rw [clockStep_calm env g e he]
    exact hg i hi
  exact (confined_iff _).mpr (runAll_invariant hstep (fun _ _ => rfl) (h.take n))

def plainClock : List ClockEvent :=
  [.loader (.openImage ⟨some Elf.plainSample,201,none⟩ 1) 4,.refresh 5,.loader (.close 1) 5,.refresh 6]

theorem plainSample_clockless : (⟨some Elf.plainSample,201,none⟩ : ModuleImage).Clockless := by
  intro data elf hdata helf
  obtain rfl : plainSample=data := Option.some.inj hdata
  obtain rfl : file plainSample 201 2=elf := by
    have hopen : (kbElfOpen plainSample 201).val=.ok (file plainSample 201 2) := by rfl
    exact Except.ok.inj (hopen.symm.trans helf)
  rintro ⟨table,k,symbol,hsym,-⟩
  obtain ⟨sec,hsec,-⟩ := kbElfSymbol_name hsym
  have hlt : table<2 := kbElfSection_lt hsec
  have hnone : ∀ table<2,(kbElfSymbol (file plainSample 201 2) table k).val= .error .invalid := by
    intro table hlt
    interval_cases table <;> rfl
  rw [hnone table hlt] at hsym
  cases hsym

theorem jiffies_confined_plainClock :
    (runAll (clockStep Env.sample) Globals.start (plainClock.take 2)).loaded.length=1 ∧
      Confined (runAll (clockStep Env.sample) Globals.start (plainClock.take 2)) :=
  ⟨by decide +kernel,
    jiffies_confined sample plainClock ⟨plainSample_clockless,trivial,trivial,trivial,trivial⟩ 2⟩

/-- A word with a relocation against the undefined symbol jiffies. -/
def Elf.jiffiesPointer : Bytes :=
  (((Elf.withSection (Elf.withSection (Elf.withSection (Elf.withSection (Elf.header 4)
    0 0 Elf.shtStrtab 0 320 9 0 0 1 0) 1 0 Elf.shtProgbits 3 336 8 0 0 8 0)
    2 0 Elf.shtSymtab 0 344 24 0 0 8 24) 3 0 Elf.shtRela 0 368 24 2 1 8 24).put
    320 (0::literalBytes "jiffies")).put
    344 ([1,0,0,0,0x10,0,0,0]++Bytes.leBytes 8 0++Bytes.leBytes 8 0)).put
    368 (Bytes.leBytes 8 0++Bytes.leBytes 8 1++Bytes.leBytes 8 0)

def clockOpen : Event := .openImage ⟨some Elf.jiffiesPointer,392,none⟩ 1

/-- The load fills the pv_ops table, and its registration overwrites an entry of it; the slot
outlives the module and its image. -/
theorem jiffies_slot_escapes :
    let g := runAll (clockStep Env.sample) Globals.start [.loader clockOpen 5]
    let closed := clockStep Env.sample g (.loader (.close 1) 6)
    (∃ m∈(step Env.sample Globals.start clockOpen).loaded,
      m.image (m.shimRegionOffset+pvOpsOffset+256)=2) ∧
    (∃ m∈g.loaded,m.image (m.shimRegionOffset+pvOpsOffset+256)=5) ∧
    ¬Confined g ∧ closed.loaded.length=0 ∧ closed.jiffiesStorages 0≠0 ∧ ¬Confined closed := by
  have hfirst : 0<jiffiesStorageMax := by decide
  have hrun : let g := runAll (clockStep sample) Globals.start [.loader clockOpen 5]
      (∃ m∈(step sample Globals.start clockOpen).loaded,
        m.image (m.shimRegionOffset+pvOpsOffset+256)=2) ∧
      (∃ m∈g.loaded,m.image (m.shimRegionOffset+pvOpsOffset+256)=5) ∧
      g.jiffiesStorages 0≠0 ∧ (clockStep sample g (.loader (.close 1) 6)).loaded.length=0 := by
    decide +kernel
  generalize runAll (clockStep sample) Globals.start [.loader clockOpen 5]=g at hrun ⊢
  obtain ⟨hfilled,hstored,hslot,hgone⟩ := hrun
  have hclosed : (clockStep sample g (.loader (.close 1) 6)).jiffiesStorages 0≠0 := by
    rw [clockStep_calm sample g (.loader (.close 1) 6) trivial]
    exact hslot
  refine ⟨hfilled,hstored,?_,hgone,hclosed,?_⟩
  · exact fun h => hslot ((confined_iff _).mp h 0 hfirst)
  · exact fun h => hclosed ((confined_iff _).mp h 0 hfirst)

end Kobox.Loader
