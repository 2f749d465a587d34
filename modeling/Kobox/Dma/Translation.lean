import Kobox.Dma.Window

namespace Kobox.Dma

open List State Option
open Bool (and_eq_true)

structure Live where
  device : Nat
  cpuAddr : Nat
  size : Nat
  handed : Extent
  deriving DecidableEq

/-- The device address of byte b; only the first page's address has an offset in it. -/
def Live.byteAddr (l : Live) (b : Nat) : Nat :=
  match l.handed with
  | .whole dma => dma+b
  | .pages table =>
    let o := l.cpuAddr%pageSize+b
    if o/pageSize=0 then table.headD 0+b else table.getD (o/pageSize) 0+o%pageSize

def Mapping.live (m : Mapping) : Live := ⟨m.device,m.cpuAddr,m.size,m.handed⟩

inductive Op
  | window (op : WindowOp)
  | map (r : Request) (ans : Answer)
  | mapPersistent (r : Request) (ans : Answer)
  | mapFixed (r : Request) (dmaAddr : Nat) (ans : Answer)
  | alloc (backend device size : Nat) (ans : Answer)
  | free (backend size cpuAddr dmaAddr : Nat)

def dmaStep (env : Env) (s : State) : Op → State
  | .window op => windowStep env s op
  | .map r ans => (dmaMap env s r ans).2
  | .mapPersistent r ans => (dmaMapPersistentBidirectional env s r ans).2
  | .mapFixed r dmaAddr ans => (dmaMapFixed env s r dmaAddr ans).2
  | .alloc backend device size ans => (dmaAlloc env s backend device size ans).2
  | .free backend size cpuAddr dmaAddr => dmaFree env s backend size cpuAddr dmaAddr

def reported (env : Env) (s : State) : Op → Option Live
  | .window (.mapPages r ans) =>
    (dmaMapPages env s r ans).1.toOption.map fun table =>
      ⟨orDefault env r.backend r.device,r.cpuAddr,r.size,.pages table⟩
  | .map r ans =>
    (dmaMap env s r ans).1.toOption.map fun dma =>
      ⟨orDefault env r.backend r.device,r.cpuAddr,r.size,.whole dma⟩
  | .mapPersistent r ans =>
    (dmaMapPersistentBidirectional env s r ans).1.toOption.map fun dma =>
      ⟨orDefault env r.backend r.device,r.cpuAddr,r.size,.whole dma⟩
  | .mapFixed r dmaAddr ans =>
    if (dmaMapFixed env s r dmaAddr ans).1=.ok then
      some ⟨orDefault env r.backend r.device,r.cpuAddr,r.size,.whole dmaAddr⟩
    else none
  | .alloc backend device size ans =>
    match (dmaAlloc env s backend device size ans).1,
      ans.alloc (orDefault env backend device) size with
    | some (cpu,dma),.ok (_,_,got) => some ⟨orDefault env backend device,cpu,got,.whole dma⟩
    | _,_ => none
  | _ => none

/-- The mapping that a call names to end it: the newest with the device, address and size. -/
def ends (env : Env) : Op → Live → Bool
  | .window (.unmap backend device dmaAddr size _),l =>
    backend≠0 && size≠0 && l.device=orDefault env backend device && l.handed.first=dmaAddr &&
      l.size=size
  | .free _ size cpuAddr dmaAddr,l =>
    l.cpuAddr=cpuAddr && l.handed.first=dmaAddr && (size=0 || l.size=size)
  | _,_ => false

/-- The subsystem, and the mappings its callers hold, newest first. -/
structure Watched where
  state : State := {}
  live : List Live := []

def watchedStep (env : Env) (w : Watched) (op : Op) : Watched where
  state := dmaStep env w.state op
  live := (reported env w.state op).toList++w.live.eraseP (ends env op)

/-- Every byte of a mapping that is held translates back to itself, and nothing else does. -/
structure Inverse (w : Watched) : Prop where
  back : ∀ l∈w.live,∀ b<l.size, (dmaCpuAddr w.state (l.byteAddr b)).map Prod.fst=some (l.cpuAddr+b)
  only : ∀ a c n,dmaCpuAddr w.state a=some (c,n) →
    ∃ l∈w.live,∃ b<l.size,l.byteAddr b=a ∧ l.cpuAddr+b=c

structure Interval where
  dma : Nat
  cpu : Nat
  size : Nat
  deriving DecidableEq

/-- Where two ranges meet they stand for the same memory. -/
def Interval.Agree (i j : Interval) : Prop :=
  i.dma<j.dma+j.size → j.dma < i.dma+i.size → i.cpu+j.dma=j.cpu+i.dma

instance (i j : Interval) : Decidable (i.Agree j) := by
  unfold Interval.Agree
  infer_instance

variable {i : Interval}

theorem Interval.Agree.symm {j : Interval} (h : i.Agree j) : j.Agree i :=
  fun h1 h2 => (h h2 h1).symm

theorem Interval.agree_self (i : Interval) : i.Agree i := fun _ _ => rfl

theorem Interval.Agree.part {j : Interval} (h : i.Agree j) {d n : Nat} (hin : d+n ≤ i.size) :
    Interval.Agree ⟨i.dma+d,i.cpu+d,n⟩ j := by
  intro h1 h2
  simp only at h1 h2 ⊢
  have := h (by omega) (by omega)
  omega

def Mapping.interval (m : Mapping) : Interval := ⟨m.dmaAddr,m.cpuAddr,m.size⟩

def Window.intervals (w : Window) : List Interval :=
  if w.mapped then [⟨w.pageDma.headD 0,w.mappedStart,w.mappedSize⟩] else []

def State.intervals (s : State) : List Interval :=
  s.mappings.map Mapping.interval++s.window.intervals

/-- A new range does not wrap around and agrees with the ones there are. -/
def Fits (is : List Interval) (i : Interval) : Prop := i.dma+i.size<wordSize ∧ ∀ j∈is,i.Agree j

instance (is : List Interval) (i : Interval) : Decidable (Fits is i) := by
  unfold Fits
  infer_instance

/-- The pages of a table follow one another and keep the offset of the first. -/
def Straight (cpuAddr size : Nat) (table : List Nat) : Prop :=
  table.headD 0%pageSize=cpuAddr%pageSize ∧ ∀ i<pageCount (cpuAddr%pageSize+size),i≠0 →
      table.getD i 0=table.headD 0-cpuAddr%pageSize+i*pageSize

instance (cpuAddr size : Nat) (table : List Nat) : Decidable (Straight cpuAddr size table) := by
  unfold Straight
  infer_instance

/-- The backend gives straight pages that fit; a window mapped anew has given up its old range. -/
def PagesOrderly (env : Env) (s : State) (r0 : Request) (ans : Answer) : Prop :=
  let r := {r0 with device := orDefault env r0.backend r0.device}
  if s.window.serves r then
    s.window.reuses r ∨
      ∀ table,ans.mapPages r.device r.cpuAddr (s.window.mapSize r) r.direction=.ok table →
        Straight r.cpuAddr (s.window.mapSize r) table ∧ Fits (s.mappings.map Mapping.interval)
            ⟨table.headD 0,r.cpuAddr,s.window.mapSize r⟩
  else
    ∀ table,ans.mapPages r.device r.cpuAddr r.size r.direction=.ok table →
      Straight r.cpuAddr r.size table ∧ Fits s.intervals ⟨table.headD 0,r.cpuAddr,r.size⟩

/-- The backend's answers fit, and a mapping is ended by the size of its newest record. -/
def Orderly (env : Env) (s : State) : Op → Prop
  | .window (.mapPages r ans) => PagesOrderly env s r ans
  | .window (.unmap backend device dmaAddr size _) =>
    backend≠0 → size≠0 →
      ∀ m,s.mappings.find? (Mapping.at (orDefault env backend device) dmaAddr)=some m → m.size=size
  | .map r ans =>
    ∀ dma,ans.map (orDefault env r.backend r.device) r.cpuAddr r.size r.direction=.ok dma →
      Fits s.intervals ⟨dma,r.cpuAddr,r.size⟩
  | .mapPersistent r ans =>
    ∀ dma,ans.map (orDefault env r.backend r.device) r.cpuAddr r.size .bidirectional=.ok dma →
      Fits s.intervals ⟨dma,r.cpuAddr,r.size⟩
  | .mapFixed r dmaAddr _ => Fits s.intervals ⟨dmaAddr,r.cpuAddr,r.size⟩
  | .alloc backend device size ans =>
    ∀ cpu dma got,ans.alloc (orDefault env backend device) size=.ok (cpu,dma,got) →
      Fits s.intervals ⟨dma,cpu,got⟩
  | .free _ size cpuAddr dmaAddr =>
    ∀ m,s.mappings.find? (Mapping.isBuffer cpuAddr dmaAddr)=some m → size=0 ∨ m.size=size
  | _ => True

/-- The device addresses run along with the memory. -/
def Live.Runs (l : Live) : Prop := ∀ b<l.size,l.byteAddr b=l.handed.first+b

theorem whole_runs {device cpuAddr size dma : Nat} :
    (⟨device,cpuAddr,size,.whole dma⟩ : Live).Runs := fun _ _ => rfl

theorem pageCount_mul (size : Nat) : size≤pageCount size*pageSize := by
  simp only [pageCount,pageSize]
  by_cases h : size%4096=0
  · omega
  · simp only [h,ne_eq,not_false_eq_true,if_true]
    omega

variable {table : List Nat}

theorem pages_runs {device cpuAddr size : Nat} (h : Straight cpuAddr size table) :
    (⟨device,cpuAddr,size,.pages table⟩ : Live).Runs := by
  intro b hb
  obtain ⟨hoff,hpages⟩ := h
  simp only [Live.byteAddr,Extent.first]
  split
  · rfl
  next hne =>
  have hin := pageCount_mul (cpuAddr%pageSize+size)
  have hlt : (cpuAddr%pageSize+b)/pageSize<pageCount (cpuAddr%pageSize+size) := by
    rw [Nat.div_lt_iff_lt_mul (by decide)]
    exact lt_of_lt_of_le (Nat.add_lt_add_left hb _) hin
  rw [hpages _ hlt hne]
  have hle : cpuAddr%pageSize≤table.headD 0 := hoff ▸ Nat.mod_le _ _
  have hdiv := Nat.div_add_mod' (cpuAddr%pageSize+b) pageSize
  omega

structure Window.Regular (w : Window) : Prop where
  aligned : w.mappedStart%pageSize=0
  counted : w.mappedPageCount=pageCount w.mappedSize
  straight : Straight w.mappedStart w.mappedSize w.pageDma

structure Faithful (w : Watched) : Prop where
  live : w.live=w.state.mappings.map Mapping.live
  first : ∀ m∈w.state.mappings,m.dmaAddr=m.handed.first
  runs : ∀ m∈w.state.mappings,m.live.Runs
  agree : ∀ i∈w.state.intervals,∀ j∈w.state.intervals,i.Agree j
  inside : ∀ i∈w.state.intervals,i.dma+i.size<wordSize
  regular : w.state.window.mapped=true → w.state.window.Regular

variable {s : State} {m : Mapping}

theorem mem_intervals (h : m∈s.mappings) : m.interval∈s.intervals :=
  mem_append_left _ (mem_map_of_mem h)

theorem covers_iff {a : Nat} (h : m.dmaAddr+m.size<wordSize) :
    m.covers a=true ↔ m.dmaAddr≤a ∧ a < m.dmaAddr+m.size := by
  simp [Mapping.covers,Nat.mod_eq_of_lt h]

variable {w : Watched}

theorem Faithful.inverse (h : Faithful w) : Inverse w := by
  have hcov : ∀ m∈w.state.mappings,∀ a,m.covers a=true ↔ m.dmaAddr≤a ∧ a < m.dmaAddr+m.size :=
    fun m hm a => covers_iff (h.inside _ (mem_intervals hm))
  constructor
  · intro l hl b hb
    rw [h.live] at hl
    obtain ⟨m,hm,rfl⟩ := mem_map.mp hl
    have haddr : m.live.byteAddr b=m.dmaAddr+b := by
      rw [h.runs m hm b hb,h.first m hm]
      rfl
    rw [haddr]
    simp only [Mapping.live] at hb ⊢
    have hself : m.covers (m.dmaAddr+b)=true := (hcov m hm _).mpr ⟨by omega,by omega⟩
    obtain ⟨m',hfind⟩ : ∃ m',w.state.mappings.find? (Mapping.covers (m.dmaAddr+b))=some m' := by
      rw [←isSome_iff_exists,find?_isSome]
      exact ⟨m,hm,hself⟩
    -- the newest record that holds the address may be another one, which agrees on it
    have hm' := mem_of_find?_eq_some hfind
    have hc' := (hcov m' hm' _).mp (find?_some hfind)
    have hag := h.agree _ (mem_intervals hm) _ (mem_intervals hm')
    simp only [Interval.Agree,Mapping.interval] at hag
    simp only [dmaCpuAddr,hfind,map_some,some.injEq]
    omega
  · intro a c n hac
    simp only [dmaCpuAddr,map_eq_some_iff,Prod.mk.injEq] at hac
    obtain ⟨m,hfind,hc,-⟩ := hac
    have hm := mem_of_find?_eq_some hfind
    have hc' := (hcov m hm _).mp (find?_some hfind)
    have hb : a-m.dmaAddr < m.live.size := by
      simp only [Mapping.live]
      omega
    refine ⟨m.live,?_,a-m.dmaAddr,hb,?_,hc⟩
    · rw [h.live]
      exact mem_map_of_mem hm
    · have hrun := h.runs m hm _ hb
      simp only [Mapping.live] at hrun ⊢
      rw [hrun,←h.first m hm]
      omega

/-- The second window has the mapping of the first, or none. -/
def Window.Keeps (w w' : Window) : Prop :=
  w'.mapped=true → w.mapped=true ∧ w'.mappedStart=w.mappedStart ∧ w'.mappedSize=w.mappedSize ∧
    w'.mappedPageCount=w.mappedPageCount ∧ w'.pageDma=w.pageDma

theorem Window.Keeps.refl (w : Window) : w.Keeps w := fun h => ⟨h,rfl,rfl,rfl,rfl⟩

theorem Window.Keeps.trans {u v w : Window} (h1 : u.Keeps v) (h2 : v.Keeps w) : u.Keeps w := by
  intro hm
  obtain ⟨hv,a2,b2,c2,d2⟩ := h2 hm
  obtain ⟨hu,a1,b1,c1,d1⟩ := h1 hv
  exact ⟨hu,a2.trans a1,b2.trans b1,c2.trans c1,d2.trans d1⟩

theorem Window.Keeps.intervals {w w' : Window} (h : w.Keeps w') (hi : i∈w'.intervals) :
    i∈w.intervals := by
  simp only [Window.intervals] at hi ⊢
  split at hi
  · next hm =>
    obtain ⟨hw,hs,hn,-,hp⟩ := h hm
    rw [if_pos hw]
    simpa [hs,hn,hp] using hi
  · simp at hi

theorem Faithful.replace (h : Faithful w) {live : List Live} (new : Option Interval)
    (hlive : live=s.mappings.map Mapping.live)
    (hmaps : ∀ m∈s.mappings,m∈w.state.mappings ∨ m.dmaAddr=m.handed.first ∧ m.live.Runs)
    (hin : ∀ i∈s.intervals,i∈w.state.intervals ∨ some i=new ∧ i.dma+i.size<wordSize ∧
      ∀ j∈s.intervals,j∈w.state.intervals → i.Agree j)
    (hwindow : s.window.mapped=true → s.window.Regular) : Faithful ⟨s,live⟩ := by
  refine ⟨hlive,?_,?_,?_,?_,hwindow⟩
  · intro m hm
    rcases hmaps m hm with hold | hmade
    · exact h.first m hold
    · exact hmade.1
  · intro m hm
    rcases hmaps m hm with hold | hmade
    · exact h.runs m hold
    · exact hmade.2
  · intro i hi j hj
    rcases hin i hi with hold | ⟨hnew,-,hag⟩
    · rcases hin j hj with hold' | ⟨-,-,hag'⟩
      · exact h.agree i hold j hold'
      · exact (hag' i hi hold).symm
    · rcases hin j hj with hold' | ⟨hnew',-⟩
      · exact hag j hj hold'
      · rw [some.inj (hnew.trans hnew'.symm)]
        exact Interval.agree_self _
  · intro i hi
    rcases hin i hi with hold | ⟨-,hlt,-⟩
    · exact h.inside i hold
    · exact hlt

/-- Records go, and at most one is new; the window keeps its mapping or loses it. -/
theorem Faithful.change (h : Faithful w) {live : List Live} (new : Option Mapping)
    (hkeeps : w.state.window.Keeps s.window) (hlive : live=s.mappings.map Mapping.live)
    (hnew : ∀ m∈s.mappings,m∈w.state.mappings ∨ some m=new ∧ m.dmaAddr=m.handed.first ∧
      m.live.Runs ∧ Fits w.state.intervals m.interval) : Faithful ⟨s,live⟩ := by
  refine h.replace (new.map Mapping.interval) hlive
    (fun m hm => (hnew m hm).imp_right fun hn => ⟨hn.2.1,hn.2.2.1⟩) ?_ ?_
  · intro i hi
    rcases mem_append.mp hi with hi | hi
    · obtain ⟨m,hm,rfl⟩ := mem_map.mp hi
      rcases hnew m hm with hold | ⟨rfl,-,-,hfits⟩
      · exact Or.inl (mem_intervals hold)
      · exact Or.inr ⟨rfl,hfits.1,fun j _ => hfits.2 j⟩
    · exact Or.inl (mem_append_right _ (hkeeps.intervals hi))
  · intro hm
    obtain ⟨hw,hs,hn,hc,hp⟩ := hkeeps hm
    obtain ⟨haligned,hcount,hstraight⟩ := h.regular hw
    constructor
    · rwa [hs]
    · rwa [hc,hn]
    · rwa [hs,hn,hp]

/-- The records stay, and the window keeps its mapping or loses it. -/
def State.Framed (s t : State) : Prop := t.mappings=s.mappings ∧ s.window.Keeps t.window

theorem Faithful.window (h : Faithful w) (hs : w.state.Framed s) : Faithful ⟨s,w.live⟩ :=
  h.change none hs.2 (by rw [h.live,hs.1]) fun _ hm => Or.inl (hs.1 ▸ hm)

theorem Faithful.add (h : Faithful w) (hms : s.mappings=m::w.state.mappings)
    (hkeeps : w.state.window.Keeps s.window) (hfirst : m.dmaAddr=m.handed.first)
    (hruns : m.live.Runs) (hfits : Fits w.state.intervals m.interval) :
    Faithful ⟨s,m.live::w.live⟩ := by
  refine h.change (some m) hkeeps (by simp [h.live,hms]) fun x hx => ?_
  rw [hms] at hx
  rcases mem_cons.mp hx with rfl | hx
  · exact Or.inr ⟨rfl,hfirst,hruns,hfits⟩
  · exact Or.inl hx

theorem Faithful.erase (h : Faithful w) {p : Mapping → Bool} {q : Live → Bool} {more : Mapping → Prop}
    (hms : s.mappings=w.state.mappings.eraseP p) (hkeeps : w.state.window.Keeps s.window)
    (hpq : ∀ m,m.handed.first=m.dmaAddr → (q m.live=true ↔ p m=true ∧ more m))
    (hmore : ∀ m,w.state.mappings.find? p=some m → more m) :
    Faithful ⟨s,w.live.eraseP q⟩ := by
  have hfirst := fun m hm => hpq m (h.first m hm).symm
  have hsame : w.live.eraseP q=s.mappings.map Mapping.live := by
    rw [h.live,hms,eraseP_map,eraseP_eq_of_find (fun m hm hq => ((hfirst m hm).mp hq).1)
      fun m hm => (hfirst m (mem_of_find?_eq_some hm)).mpr ⟨find?_some hm,hmore m hm⟩]
    rfl
  refine h.change none hkeeps hsame fun m hm => Or.inl ?_
  rw [hms] at hm
  exact mem_of_mem_eraseP hm

section

variable (env : Env) (s : State)

theorem Framed.refl : s.Framed s := ⟨rfl,Window.Keeps.refl _⟩

theorem release_framed : s.Framed (dmaWindowReleaseMapping env s) := by
  refine ⟨releaseMapping_mappings env s,?_⟩
  simp only [dmaWindowReleaseMapping]
  split
  · exact Window.Keeps.refl _
  · intro hm
    simp at hm

theorem clear_framed : s.Framed s.clearWindow := by
  refine ⟨rfl,fun hm => ?_⟩
  simp [clearWindow] at hm

theorem dropped_framed : s.Framed (dmaWindowReleaseMapping env s).clearWindow :=
  ⟨releaseMapping_mappings env s,(release_framed env s).2.trans (clear_framed _).2⟩

theorem beginCommon_framed {a : Scope} : s.Framed (dmaWindowBeginCommon env s a).2 := by
  simp only [dmaWindowBeginCommon]
  split
  · exact Framed.refl s
  split
  · exact Framed.refl s
  split_ifs
  · exact dropped_framed env s
  · exact release_framed env s
  · exact clear_framed s
  · exact Framed.refl s

theorem begin_framed {a : Scope} : s.Framed (dmaWindowBegin env s a).2 := by
  simp only [dmaWindowBegin]
  split
  · obtain ⟨hms,hk⟩ := beginCommon_framed env (dmaWindowReleaseMapping env s).clearWindow
    obtain ⟨hms0,hk0⟩ := dropped_framed env s
    exact ⟨hms.trans hms0,hk0.trans hk⟩
  · exact beginCommon_framed env s

theorem end_framed : s.Framed (dmaWindowEnd env s) := by
  simp only [dmaWindowEnd]
  split
  · exact Framed.refl s
  · exact dropped_framed env s

theorem discard_framed : s.Framed (dmaCachedWindowDiscard env s) := by
  simp only [dmaCachedWindowDiscard]
  split
  · exact Framed.refl s
  · exact dropped_framed env s

theorem cachedEnd_framed : s.Framed (dmaCachedWindowEnd s) := by
  simp only [dmaCachedWindowEnd]
  split
  · exact Framed.refl s
  · exact ⟨rfl,fun hm => ⟨hm,rfl,rfl,rfl,rfl⟩⟩

theorem mapSize_eq {r : Request} :
    (dmaWindowReleaseMapping env s).window.mapSize r=s.window.mapSize r := by
  obtain ⟨-,-,-,hstart,hsize⟩ := releaseMapping_scope env s
  simp only [Window.mapSize,hstart,hsize]

end

def reportedPages (r : Request) (result : Except Status (List Nat)) : List Live :=
  (result.toOption.map fun table => ⟨r.device,r.cpuAddr,r.size,.pages table⟩).toList

theorem tableSlice_getD {first count i : Nat} (h : i<count) :
    (tableSlice table first count).getD i 0=table.getD (first+i) 0 := by
  simp [tableSlice,h]

theorem slice_straight {start size cpu n : Nat} (h : Straight start size table)
    (hs : start%pageSize=0) (hc : cpu%pageSize=0) (hle : start ≤ cpu) (hn : n≠0)
    (hin : (cpu-start)/pageSize+pageCount n≤pageCount size) :
    Straight cpu n (tableSlice table ((cpu-start)/pageSize) (pageCount n)) ∧
      (tableSlice table ((cpu-start)/pageSize) (pageCount n)).headD 0=
        table.headD 0+(cpu-start) := by
  obtain ⟨hoff,hpages⟩ := h
  simp only [hs,Nat.zero_add] at hoff hpages
  have hpos : 0<pageCount n := by
    have := pageCount_mul n
    by_contra hz
    simp only [Nat.not_lt,Nat.le_zero] at hz
    rw [hz] at this
    omega
  set first := (cpu-start)/pageSize with hfirst
  have hgap : cpu-start=first*pageSize := by
    have hmod : (cpu-start)%pageSize=0 := by
      simp only [pageSize] at hs hc ⊢
      omega
    have := Nat.div_add_mod' (cpu-start) pageSize
    rw [←hfirst] at this
    omega
  have hentry : ∀ i<pageCount n,table.getD (first+i) 0=table.headD 0+(first+i)*pageSize := by
    intro i hi
    by_cases hz : first+i=0
    · rw [hz]
      cases table <;> simp
    · exact hpages _ (by omega) hz
  have hhead : (tableSlice table first (pageCount n)).headD 0=table.headD 0+(cpu-start) := by
    have hget : (tableSlice table first (pageCount n)).headD 0=
        (tableSlice table first (pageCount n)).getD 0 0 := by
      cases tableSlice table first (pageCount n) <;> simp
    rw [hget,tableSlice_getD hpos,hentry 0 hpos,hgap]
    simp
  refine ⟨⟨?_,?_⟩,hhead⟩
  · rw [hhead,hgap,Nat.add_mul_mod_self_right,hoff,hc]
  intro i hi _
  simp only [hc,Nat.zero_add] at hi
  rw [tableSlice_getD hi,hentry i hi]
  simp only [Nat.add_mul]
  omega

section

variable {env : Env} {r : Request} {ans : Answer} (h : Faithful w)

include h

variable {dir : Direction} {entry : Bool}

theorem kept_faithful {c : BackendCall} {backend : Nat}
    (hk : keepMapping env (w.state.call c) backend dir m entry=(.ok,s))
    (hfirst : m.dmaAddr=m.handed.first) (hruns : m.live.Runs)
    (hfits : Fits w.state.intervals m.interval) : Faithful ⟨s,m.live::w.live⟩ := by
  rcases keepMapping_cases with hc | ⟨_,hne,hc | hc⟩ <;>
    cases hc.symm.trans hk
  · exact h.add rfl (Window.Keeps.refl _) hfirst hruns hfits
  · exact absurd rfl hne
  · exact absurd rfl hne

theorem lost_faithful {c : BackendCall} {backend : Nat} {status : Status}
    (hk : keepMapping env (w.state.call c) backend dir m entry=(status,s)) (hs : status≠.ok) :
    Faithful ⟨s,w.live⟩ := by
  rcases keepMapping_cases with hc | ⟨_,-,hc | hc⟩ <;>
    cases hc.symm.trans hk
  · exact absurd rfl hs
  · exact h.window (Framed.refl _)
  · exact h.window (Framed.refl _)

theorem windowLend_faithful (haligned : r.cpuAddr%pageSize=0) (hsize : r.size≠0)
    (hin : w.state.window.reuses r=true) :
    Faithful ⟨(dmaWindowLend w.state r entry).2,
      reportedPages r (dmaWindowLend w.state r entry).1++w.live⟩ := by
  simp only [Window.reuses,and_eq_true,decide_eq_true_eq] at hin
  obtain ⟨⟨hmapped,hstart⟩,hstop⟩ := hin
  simp only [dmaWindowLend]
  split
  · exact h
  next hfit =>
  have hw := h.regular hmapped
  rw [hw.counted] at hfit
  obtain ⟨hstraight,hhead⟩ := slice_straight hw.straight hw.aligned haligned hstart hsize (by omega)
  set table := tableSlice w.state.window.pageDma
    ((r.cpuAddr-w.state.window.mappedStart)/pageSize) (pageCount r.size)
  set m : Mapping := ⟨r.cpuAddr,table.headD 0,r.size,r.device,true,false,.pages table⟩ with hmdef
  have hfits : Fits w.state.intervals m.interval := by
    have hwin : ⟨w.state.window.pageDma.headD 0,w.state.window.mappedStart,
        w.state.window.mappedSize⟩∈w.state.intervals := by
      apply mem_append_right
      simp [Window.intervals,hmapped]
    have hi : m.interval=⟨w.state.window.pageDma.headD 0+(r.cpuAddr-w.state.window.mappedStart),
        w.state.window.mappedStart+(r.cpuAddr-w.state.window.mappedStart),r.size⟩ := by
      simp only [Mapping.interval,hmdef,Interval.mk.injEq,and_true]
      omega
    rw [hi]
    constructor
    · have := h.inside _ hwin
      simp only at this ⊢
      omega
    · intro j hj
      refine Interval.Agree.part (h.agree _ hwin j hj) ?_
      simp only
      omega
  rcases remember_cases with ⟨status,hne,hr⟩ | ⟨-,-,hr⟩
  · rw [hr]
    cases status with
    | ok => exact absurd rfl hne
    | _ => exact h
  · rw [hr]
    exact h.add (m := m) rfl (fun hm => ⟨hm,rfl,rfl,rfl,rfl⟩) rfl (pages_runs hstraight) hfits

theorem window_mapped_faithful (hms : s.mappings=w.state.mappings) (hwindow : s.window.Regular)
    (hfits : Fits (w.state.mappings.map Mapping.interval)
      ⟨s.window.pageDma.headD 0,s.window.mappedStart,s.window.mappedSize⟩) :
    Faithful ⟨s,w.live⟩ := by
  have hnew : ∀ i∈s.window.intervals,
      i=⟨s.window.pageDma.headD 0,s.window.mappedStart,s.window.mappedSize⟩ := by
    intro i hi
    simp only [Window.intervals] at hi
    split at hi
    · simpa using hi
    · simp at hi
  refine h.replace (some ⟨s.window.pageDma.headD 0,s.window.mappedStart,s.window.mappedSize⟩)
    (by rw [h.live,hms]) (fun m hm => Or.inl (hms ▸ hm)) (fun i hi => ?_)
    fun _ => hwindow
  rcases mem_append.mp hi with hi | hi
  · exact Or.inl (mem_append_left _ (hms ▸ hi))
  rw [hnew i hi]
  refine Or.inr ⟨rfl,hfits.1,fun j hj _ => ?_⟩
  rcases mem_append.mp hj with hj | hj
  · exact hfits.2 j (hms ▸ hj)
  · rw [hnew j hj]
    exact Interval.agree_self _

theorem windowMapPages_faithful (hsize : r.size≠0)
    (hok : w.state.window.serves r=true → w.state.window.reuses r=true ∨
      ∀ table,ans.mapPages r.device r.cpuAddr (w.state.window.mapSize r) r.direction=.ok table →
      Straight r.cpuAddr (w.state.window.mapSize r) table ∧
      Fits (w.state.mappings.map Mapping.interval)
      ⟨table.headD 0,r.cpuAddr,w.state.window.mapSize r⟩) :
    (w.state.window.serves r=false ∧ dmaWindowMapPages env w.state r ans=(none,w.state)) ∨
      ∃ result s',dmaWindowMapPages env w.state r ans=(some result,s') ∧
        Faithful ⟨s',reportedPages r result++w.live⟩ := by
  by_cases hserves : w.state.window.serves r=true
  swap
  · left
    simp only [Bool.not_eq_true] at hserves
    exact ⟨hserves,by simp [dmaWindowMapPages,hserves]⟩
  right
  have haligned : r.cpuAddr%pageSize=0 := by
    simp only [Window.serves,and_eq_true,decide_eq_true_eq] at hserves
    exact hserves.2
  simp only [dmaWindowMapPages,hserves,Bool.not_true,Bool.false_eq_true,if_false]
  split
  · exact ⟨_,_,rfl,h⟩
  split
  · next hin => exact ⟨_,_,rfl,windowLend_faithful h haligned hsize hin⟩
  next hreuse =>
  have hback := (hok hserves).resolve_left hreuse
  split
  · exact ⟨_,_,rfl,h⟩
  have h1 := h.window (release_framed env w.state)
  rw [mapSize_eq]
  have hms := releaseMapping_mappings env w.state
  set s1 := dmaWindowReleaseMapping env w.state
  split
  · exact ⟨_,_,rfl,h1⟩
  next hfits =>
  split
  · exact ⟨_,_,rfl,h1⟩
  split
  · exact ⟨_,_,rfl,h1⟩
  next table htable =>
  obtain ⟨hstraight,hfit⟩ := hback table htable
  set s3 : State := {s1.call (.mapped .window r.device r.cpuAddr (w.state.window.mapSize r)
    r.direction (.pages table)) with window := {s1.window with
      mappedStart := r.cpuAddr,mappedSize := w.state.window.mapSize r,
      mappedPageCount := pageCount (w.state.window.mapSize r),pageDma := table,mapped := true}}
    with hs3
  have h3 : Faithful ⟨s3,w.live⟩ :=
    window_mapped_faithful h (by rw [←hms]; rfl) ⟨haligned,rfl,hstraight⟩ hfit
  refine ⟨_,_,rfl,windowLend_faithful h3 haligned hsize ?_⟩
  simp only [hs3,Window.reuses,and_eq_true,decide_eq_true_eq]
  refine ⟨⟨trivial,Nat.le_refl _⟩,?_⟩
  exact Nat.add_le_add_left (Nat.le_of_not_lt hfits) _

theorem mapPages_faithful {r0 : Request} (hok : PagesOrderly env w.state r0 ans) :
    Faithful ⟨(dmaMapPages env w.state r0 ans).2,
      reportedPages {r0 with device := orDefault env r0.backend r0.device}
        (dmaMapPages env w.state r0 ans).1++w.live⟩ := by
  simp only [PagesOrderly] at hok
  simp only [dmaMapPages]
  split
  · exact h
  next hargs =>
  set r : Request := {r0 with device := orDefault env r0.backend r0.device}
  have hsize : r.size≠0 := by
    simp only [not_or] at hargs
    exact hargs.2.2.1
  split
  · exact h
  split
  · exact h
  rcases windowMapPages_faithful h hsize (fun hs => by simpa [hs] using hok)
    with ⟨hserves,hnone⟩ | ⟨result,s',hsome,hf⟩
  swap
  · rw [hsome]
    exact hf
  simp only [hnone]
  simp only [hserves] at hok
  split
  · exact h
  next table htable =>
  obtain ⟨hstraight,hfits⟩ := hok table htable
  split
  · next hk => exact kept_faithful h hk rfl (pages_runs hstraight) hfits
  · next hne hk => exact lost_faithful h hk hne

theorem mapWithLifetime_faithful {persistent : Bool}
    (hok : ∀ dma,ans.map (orDefault env r.backend r.device) r.cpuAddr r.size r.direction=.ok dma →
      Fits w.state.intervals ⟨dma,r.cpuAddr,r.size⟩) :
    Faithful ⟨(dmaMapWithLifetime env w.state r persistent ans).2,
      ((dmaMapWithLifetime env w.state r persistent ans).1.toOption.map fun dma =>
        (⟨orDefault env r.backend r.device,r.cpuAddr,r.size,.whole dma⟩ : Live)).toList++w.live⟩ := by
  simp only [dmaMapWithLifetime]
  split
  · exact h
  split
  · exact h
  split
  · exact h
  split
  · exact h
  next dma hdma =>
  split
  · split
    · exact h.window (Framed.refl _)
    · exact h.window (Framed.refl _)
  split
  · next hk => exact kept_faithful h hk rfl (whole_runs) (hok dma hdma)
  · next hne hk => exact lost_faithful h hk hne

theorem mapFixed_faithful {dmaAddr : Nat} (hok : Fits w.state.intervals ⟨dmaAddr,r.cpuAddr,r.size⟩) :
    Faithful ⟨(dmaMapFixed env w.state r dmaAddr ans).2,
      (reported env w.state (.mapFixed r dmaAddr ans)).toList++w.live⟩ := by
  simp only [reported,dmaMapFixed]
  split
  · exact h
  split
  · exact h
  split
  · exact h
  split
  · split
    · next hk => exact kept_faithful h (Prod.ext hk rfl) rfl (whole_runs) hok
    · next hk => exact lost_faithful h rfl hk
  · next hne =>
    rw [if_neg hne]
    exact h

theorem alloc_faithful {backend device0 size : Nat}
    (hok : ∀ cpu dma got,ans.alloc (orDefault env backend device0) size=.ok (cpu,dma,got) →
      Fits w.state.intervals ⟨dma,cpu,got⟩) :
    Faithful ⟨(dmaAlloc env w.state backend device0 size ans).2,
      (reported env w.state (.alloc backend device0 size ans)).toList++w.live⟩ := by
  simp only [reported,dmaAlloc]
  split
  · exact h
  set device := orDefault env backend device0
  split
  · exact h
  split
  · exact h
  cases halloc : ans.alloc device size with
  | error status => exact h
  | ok buffer =>
    obtain ⟨cpu,dma,got⟩ := buffer
    simp only
    rcases remember_cases with ⟨status,hne,hr⟩ | ⟨-,-,hr⟩
    · rw [hr]
      cases status with
      | ok => exact absurd rfl hne
      | _ =>
        simp only
        split <;> exact h.window (Framed.refl _)
    · rw [hr]
      exact h.add (m := ⟨cpu,dma,got,device,false,true,.whole dma⟩) rfl (Window.Keeps.refl _) rfl
        (whole_runs) (hok cpu dma got halloc)

theorem unmap_faithful {backend device0 dmaAddr size : Nat}
    (hok : Orderly env w.state (.window (.unmap backend device0 dmaAddr size dir))) :
    Faithful ⟨dmaUnmap env w.state backend device0 dmaAddr size dir,
      w.live.eraseP (ends env (.window (.unmap backend device0 dmaAddr size dir)))⟩ := by
  by_cases hargs : backend=0 ∨ size=0
  · have hnone : w.live.eraseP (ends env (.window (.unmap backend device0 dmaAddr size dir)))=
        w.live := by
      apply eraseP_of_forall_not
      simp only [ends,and_eq_true,decide_eq_true_eq]
      omega
    rw [hnone,dmaUnmap,if_pos hargs]
    exact h
  simp only [not_or] at hargs
  have hfind := hok hargs.1 hargs.2
  set device := orDefault env backend device0 with hdevice
  have hstate : (dmaUnmap env w.state backend device0 dmaAddr size dir).mappings=
        w.state.mappings.eraseP (Mapping.at device dmaAddr) ∧
      w.state.window.Keeps (dmaUnmap env w.state backend device0 dmaAddr size dir).window := by
    simp only [dmaUnmap,if_neg (not_or.mpr hargs),←hdevice]
    split
    · exact ⟨rfl,fun hm => ⟨hm,rfl,rfl,rfl,rfl⟩⟩
    · split
      · exact ⟨rfl,Window.Keeps.refl _⟩
      · exact ⟨rfl,Window.Keeps.refl _⟩
  refine h.erase hstate.1 hstate.2 (fun m hm => ?_) hfind
  simp only [ends,and_eq_true,decide_eq_true_eq]
  simp [Mapping.at,Mapping.live,hm,hargs.1,hargs.2,←hdevice]

theorem free_faithful {backend size cpuAddr dmaAddr : Nat}
    (hok : Orderly env w.state (.free backend size cpuAddr dmaAddr)) :
    Faithful ⟨dmaFree env w.state backend size cpuAddr dmaAddr,
      w.live.eraseP (ends env (.free backend size cpuAddr dmaAddr))⟩ := by
  have hstate : (dmaFree env w.state backend size cpuAddr dmaAddr).mappings=
        w.state.mappings.eraseP (Mapping.isBuffer cpuAddr dmaAddr) ∧
      w.state.window.Keeps (dmaFree env w.state backend size cpuAddr dmaAddr).window := by
    simp only [dmaFree]
    split
    · next hnone =>
      refine ⟨?_,Window.Keeps.refl _⟩
      rw [eraseP_of_forall_not]
      simpa using find?_eq_none.mp hnone
    · split
      · exact ⟨rfl,Window.Keeps.refl _⟩
      · exact ⟨rfl,Window.Keeps.refl _⟩
  refine h.erase hstate.1 hstate.2 (fun m hm => ?_) hok
  simp only [ends,and_eq_true,Bool.or_eq_true,decide_eq_true_eq]
  simp [Mapping.isBuffer,Mapping.live,hm]

omit h in
theorem step_of_adds {op : Op} (hends : ∀ l,ends env op l=false)
    (h : Faithful ⟨dmaStep env w.state op,(reported env w.state op).toList++w.live⟩) :
    Faithful (watchedStep env w op) := by
  have hsame : w.live.eraseP (ends env op)=w.live := eraseP_of_forall_not (by simp [hends])
  rw [watchedStep,hsame]
  exact h

theorem watchedStep_faithful {op : Op} (hok : Orderly env w.state op) :
    Faithful (watchedStep env w op) := by
  cases op with
  | window op =>
    cases op with
    | begin a => exact step_of_adds (fun _ => rfl) (h.window (begin_framed env w.state))
    | cachedBegin a => exact step_of_adds (fun _ => rfl) (h.window (beginCommon_framed env w.state))
    | windowEnd => exact step_of_adds (fun _ => rfl) (h.window (end_framed env w.state))
    | cachedEnd => exact step_of_adds (fun _ => rfl) (h.window (cachedEnd_framed w.state))
    | cachedDiscard => exact step_of_adds (fun _ => rfl) (h.window (discard_framed env w.state))
    | mapPages r ans => exact step_of_adds (fun _ => rfl) (mapPages_faithful h hok)
    | unmap backend device dmaAddr size direction => exact unmap_faithful h hok
  | map r ans => exact step_of_adds (fun _ => rfl) (mapWithLifetime_faithful h hok)
  | mapPersistent r ans =>
    exact step_of_adds (fun _ => rfl)
      (mapWithLifetime_faithful (r := {r with direction := .bidirectional}) h hok)
  | mapFixed r dmaAddr ans => exact step_of_adds (fun _ => rfl) (mapFixed_faithful h hok)
  | alloc backend device size ans => exact step_of_adds (fun _ => rfl) (alloc_faithful h hok)
  | free backend size cpuAddr dmaAddr => exact free_faithful h hok

end

theorem fresh_faithful : Faithful {} where
  live := rfl
  first := by simp
  runs := by simp
  agree := by simp [intervals,Window.intervals]
  inside := by simp [intervals,Window.intervals]
  regular := by simp

/-- If the backend gives consecutive pages that agree with those in use, and mappings end by their
own size, lookup inverts mapping. -/
theorem translation_inverts_mapping (env : Env) (ops : List Op)
    (h : Meets (watchedStep env) (fun w op => Orderly env w.state op) {} ops) (n : Nat) :
    Inverse (runAll (watchedStep env) {} (ops.take n)) := by
  have hstep : ∀ w op,Faithful w → Orderly env w.state op → Faithful (watchedStep env w op) :=
    fun w op hw hok => watchedStep_faithful hw hok
  exact (runAll_invariant hstep fresh_faithful (h.take n)).inverse

/-- A device of scattered pages; and a call with straight ones, which is unmapped again. -/
def scatteredAnswer : Answer := {plainAnswer with mapPages := fun _ _ _ _ => .ok [0x100800,0x900000]}

def mapAndUnmap : List Op := [.window (.mapPages ⟨1,1,0x4800,0x1000,.toDevice,8⟩
      {plainAnswer with mapPages := fun _ _ _ _ => .ok [0x100800,0x101000]}),
    .map ⟨1,1,0x8000,0x100,.fromDevice,0⟩ plainAnswer,
    .window (.unmap 1 1 0x100800 0x1000 .toDevice)]

theorem mapAndUnmap_orderly :
    Meets (watchedStep plainEnv) (fun w op => Orderly plainEnv w.state op) {} mapAndUnmap := by
  refine ⟨?_,?_,?_,trivial⟩
  · intro table ht
    cases ht
    decide +kernel
  · intro dma hd
    cases hd
    decide +kernel
  intro _ _ m hm
  have hsome : (runAll (watchedStep plainEnv) {} (mapAndUnmap.take 2)).state.mappings.find?
      (Mapping.at 1 0x100800)=
        some ⟨0x4800,0x100800,0x1000,1,false,false,.pages [0x100800,0x101000]⟩ := by
    decide +kernel
  exact (some.inj (hsome.symm.trans hm)) ▸ rfl

theorem translation_inverts_mapping_straight :
    Meets (watchedStep plainEnv) (fun w op => Orderly plainEnv w.state op) {} mapAndUnmap ∧
      Inverse (runAll (watchedStep plainEnv) {} (mapAndUnmap.take 2)) :=
  ⟨mapAndUnmap_orderly,translation_inverts_mapping plainEnv mapAndUnmap mapAndUnmap_orderly 2⟩

/-- The second page does not follow the first: it is not found, and others are taken for it. -/
theorem scattered_pages_not_found :
    let w := runAll (watchedStep plainEnv) {}
      [.window (.mapPages ⟨1,1,0x4800,0x1000,.toDevice,8⟩ scatteredAnswer)]
    w.live=[⟨1,0x4800,0x1000,.pages [0x100800,0x900000]⟩] ∧
      dmaCpuAddr w.state 0x900000=none ∧ dmaCpuAddr w.state 0x101000=some (0x5000,0x800) ∧
      ¬Inverse w := by
  refine ⟨by decide +kernel,by decide +kernel,by decide +kernel,?_⟩
  intro h
  have hback := h.back ⟨1,0x4800,0x1000,.pages [0x100800,0x900000]⟩ (by decide +kernel) 0x800
  revert hback
  decide +kernel

end Kobox.Dma
