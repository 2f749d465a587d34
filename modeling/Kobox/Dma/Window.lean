import Kobox.Dma.Model
import Kobox.Framework.Unlink

namespace Kobox.Dma

open List State Window Or

/-- What is still mapped; twice says that the window released a mapping that was gone. -/
structure Ledger where
  window : List (Nat × Nat)
  caller : List (Nat × Nat)
  twice : Bool
  deriving DecidableEq

open Ledger

/-- An unmap for a caller ends a caller's mapping, and only without one the window's. -/
def Ledger.settle (l : Ledger) : BackendCall → Ledger
  | .mapped .window d _ _ _ e => {l with window := (d,e.first)::l.window}
  | .mapped .caller d _ _ _ e => {l with caller := (d,e.first)::l.caller}
  | .unmapped .window d a _ _ =>
    {l with window := l.window.erase (d,a),twice := l.twice || decide ((d,a)∉l.window)}
  | .unmapped .caller d a _ _ =>
    if (d,a)∈l.caller then {l with caller := l.caller.erase (d,a)}
    else {l with window := l.window.erase (d,a)}
  | _ => l

def ledger : List BackendCall → Ledger
  | [] => ⟨[],[],false⟩
  | c::cs => (ledger cs).settle c

inductive WindowOp
  | begin (a : Scope)
  | cachedBegin (a : Scope)
  | windowEnd
  | cachedEnd
  | cachedDiscard
  | mapPages (r : Request) (ans : Answer)
  | unmap (backend device dmaAddr size : Nat) (direction : Direction)

def windowStep (env : Env) (s : State) : WindowOp → State
  | .begin a => (dmaWindowBegin env s a).2
  | .cachedBegin a => (dmaCachedWindowBegin env s a).2
  | .windowEnd => dmaWindowEnd env s
  | .cachedEnd => dmaCachedWindowEnd s
  | .cachedDiscard => dmaCachedWindowDiscard env s
  | .mapPages r ans => (dmaMapPages env s r ans).2
  | .unmap backend device dmaAddr size direction =>
    dmaUnmap env s backend device dmaAddr size direction

def Window.key (w : Window) : Nat × Nat := (w.device,w.pageDma.headD 0)

def Window.keys (w : Window) : List (Nat × Nat) := if w.mapped then [w.key] else []

structure WindowProtocol (s : State) : Prop where
  idle : s.window.active=false → s.window.borrowers=0
  counted : s.window.borrowers=s.mappings.countP (·.borrowedWindow)
  released : (ledger s.calls).window=s.window.keys
  once : (ledger s.calls).twice=false
  borrowed : s.window.borrowers≠0 → s.window.mapped=true
  translated : ∀ m∈s.mappings,m.borrowedWindow=true → ∃ table,
    .mapped .window m.device s.window.mappedStart s.window.mappedSize s.window.direction
      (.pages table)∈s.calls ∧
    s.window.key=(m.device,table.headD 0) ∧
    s.window.mappedStart ≤ m.cpuAddr ∧
    m.cpuAddr+m.size ≤ s.window.mappedStart+s.window.mappedSize ∧
    m.handed=.pages (tableSlice table ((m.cpuAddr-s.window.mappedStart)/pageSize)
      (pageCount m.size))

/-- An unmap that finds no record does not name the mapping of the window. -/
def NotStray (env : Env) (s : State) : WindowOp → Prop
  | .unmap backend device0 dmaAddr _ _ =>
    let device := orDefault env backend device0
    (s.mappings.find? (Mapping.at device dmaAddr)).isSome ∨ s.window.mapped=false ∨
      (device,dmaAddr)≠s.window.key
  | _ => True

instance (env : Env) (s : State) (op : WindowOp) : Decidable (NotStray env s op) := by
  cases op <;> (simp only [NotStray]; infer_instance)

/-- The record was made from the table of the window's present mapping. -/
structure Lent (w : Window) (m : Mapping) : Prop where
  mapped : w.mapped=true
  device : m.device=w.device
  start : w.mappedStart ≤ m.cpuAddr
  stop : m.cpuAddr+m.size≤w.mappedStart+w.mappedSize
  handed : m.handed=.pages (tableSlice w.pageDma ((m.cpuAddr-w.mappedStart)/pageSize)
    (pageCount m.size))

def Mapping.key (m : Mapping) : Nat × Nat := (m.device,m.dmaAddr)

def callerKeys (ms : List Mapping) : List (Nat × Nat) :=
  (ms.filter fun m => !m.borrowedWindow).map Mapping.key

structure Sound (env : Env) (s : State) : Prop where
  idle : s.window.active=false → s.window.borrowers=0
  counted : s.window.borrowers=s.mappings.countP (·.borrowedWindow)
  released : (ledger s.calls).window=s.window.keys
  once : (ledger s.calls).twice=false
  owed : (callerKeys s.mappings).Subperm (ledger s.calls).caller
  able : s.window.mapped=true ∨ s.window.active=true → env.has Ops.dmaUnmap s.window.backend=true
  lent : ∀ m∈s.mappings,m.borrowedWindow=true → Lent s.window m
  returned : s.window.mapped=true →
    .mapped .window s.window.device s.window.mappedStart s.window.mappedSize s.window.direction
      (.pages s.window.pageDma)∈s.calls

variable {s : State} {env : Env}

theorem Sound.protocol (h : Sound env s) : WindowProtocol s where
  idle := h.idle
  counted := h.counted
  released := h.released
  once := h.once
  borrowed := by
    intro hne
    have hpos : 0<s.mappings.countP (·.borrowedWindow) := by
      rw [←h.counted]
      exact Nat.pos_of_ne_zero hne
    obtain ⟨m,hm,hb⟩ := countP_pos_iff.mp hpos
    exact (h.lent m hm hb).mapped
  translated := by
    intro m hm hb
    have hl := h.lent m hm hb
    refine ⟨s.window.pageDma,?_,?_,hl.start,hl.stop,hl.handed⟩
    · rw [hl.device]
      exact h.returned hl.mapped
    · rw [hl.device]
      rfl

theorem fresh_sound {env : Env} : Sound env {} where
  idle := fun _ => rfl
  counted := rfl
  released := rfl
  once := rfl
  owed := nil_subperm
  able := by simp
  lent := by simp
  returned := by simp

theorem releaseMapping_mapped (env : Env) (hb : s.window.borrowers=0) :
    (dmaWindowReleaseMapping env s).window.mapped=false := by
  simp only [dmaWindowReleaseMapping,hb]
  split
  · next hm => simpa using hm
  · rfl

@[simp] theorem releaseMapping_mappings (env : Env) (s : State) :
    (dmaWindowReleaseMapping env s).mappings=s.mappings := by
  simp only [dmaWindowReleaseMapping]
  split_ifs <;> rfl

@[simp] theorem releaseMapping_borrowers (env : Env) (s : State) :
    (dmaWindowReleaseMapping env s).window.borrowers=s.window.borrowers := by
  simp only [dmaWindowReleaseMapping]
  split_ifs <;> rfl

@[simp] theorem releaseMapping_active (env : Env) (s : State) :
    (dmaWindowReleaseMapping env s).window.active=s.window.active := by
  simp only [dmaWindowReleaseMapping]
  split_ifs <;> rfl

theorem releaseMapping_scope (env : Env) (s : State) :
    (dmaWindowReleaseMapping env s).window.backend=s.window.backend ∧
      (dmaWindowReleaseMapping env s).window.device=s.window.device ∧
      (dmaWindowReleaseMapping env s).window.direction=s.window.direction ∧
      (dmaWindowReleaseMapping env s).window.scopeStart=s.window.scopeStart ∧
      (dmaWindowReleaseMapping env s).window.scopeSize=s.window.scopeSize := by
  simp only [dmaWindowReleaseMapping]
  split_ifs <;> exact ⟨rfl,rfl,rfl,rfl,rfl⟩

section

variable (h : Sound env s) (hb : s.window.borrowers=0)

include h hb

theorem Sound.none_lent (w : Window) : ∀ m∈s.mappings,m.borrowedWindow=true → Lent w m := by
  intro m hm hbm
  have hz : s.mappings.countP (·.borrowedWindow)=0 := by rw [←h.counted,hb]
  exact absurd hbm (countP_eq_zero.mp hz m hm)

theorem releaseMapping_sound : Sound env (dmaWindowReleaseMapping env s) := by
  by_cases hm : s.window.mapped=true
  · have hu := h.able (inl hm)
    have hkeys : (ledger s.calls).window=[s.window.key] := by
      rw [h.released,Window.keys,if_pos hm]
    simp only [dmaWindowReleaseMapping,hm,hb,hu,call]
    constructor
    · simp
    · simpa [hb] using h.counted
    · simp [ledger,settle,hkeys,key,Window.keys]
    · simp [ledger,settle,hkeys,key,h.once]
    · simpa [ledger,settle] using h.owed
    · intro _
      simpa using hu
    · simpa using h.none_lent hb _
    · simp
  · simp only [dmaWindowReleaseMapping,hm]
    simpa using h

theorem clearWindow_sound (hm : s.window.mapped=false) : Sound env s.clearWindow := by
  refine {h with
    idle := fun _ => rfl
    counted := ?_
    released := ?_
    able := by simp [clearWindow]
    lent := h.none_lent hb _
    returned := by simp [clearWindow]}
  · simpa [clearWindow,hb] using h.counted
  · simpa [clearWindow,Window.keys,hm] using h.released

theorem release_clear_sound : Sound env (dmaWindowReleaseMapping env s).clearWindow :=
  clearWindow_sound (releaseMapping_sound h hb) (by simpa using hb) (releaseMapping_mapped env hb)

theorem enter_sound (a : Scope) (device : Nat) (hu : env.has Ops.dmaUnmap a.backend=true)
    (hsame : s.window.mapped=true → device=s.window.device ∧ a.direction=s.window.direction) :
    Sound env {s with window := {s.window with
      backend := a.backend,device := device,scopeStart := a.cpuAddr,scopeSize := a.size,
      direction := a.direction,active := true}} := by
  refine {h with
    idle := by simp
    released := ?_
    able := fun _ => hu
    lent := h.none_lent hb _
    returned := fun hm => ?_}
  · rw [h.released]
    by_cases hm : s.window.mapped=true
    · simp [Window.keys,key,(hsame hm).1]
    · simp [Window.keys,hm]
  · have hret := h.returned hm
    simpa [(hsame hm).1,(hsame hm).2] using hret

theorem window_mapped_sound (hm : s.window.mapped=false) (hactive : s.window.active=true)
    (cpu n count : Nat) (table : List Nat) :
    Sound env {(s.call (.mapped .window s.window.device cpu n s.window.direction (.pages table)))
      with window := {s.window with
        mappedStart := cpu,mappedSize := n,mappedPageCount := count,pageDma := table,
        mapped := true}} := by
  have hempty : (ledger s.calls).window=[] := by simp [h.released,Window.keys,hm]
  refine {h with
    released := ?_
    once := ?_
    owed := ?_
    able := fun _ => h.able (inr hactive)
    lent := h.none_lent hb _
    returned := fun _ => mem_cons_self}
  · simp [call,ledger,settle,hempty,Window.keys,key,Extent.first]
  · simpa [call,ledger,settle] using h.once
  · simpa [call,ledger,settle] using h.owed

end

section

variable (h : Sound env s)

include h

theorem windowBeginCommon_sound {a : Scope} : Sound env (dmaWindowBeginCommon env s a).2 := by
  simp only [dmaWindowBeginCommon]
  split
  · exact h
  next hargs =>
  split
  · exact h
  next hops =>
  have hidle : s.window.active=false := by
    simp only [not_or,Bool.not_eq_true] at hargs
    exact hargs.2.2.2
  have hb := h.idle hidle
  have hu : env.has Ops.dmaUnmap a.backend=true := by
    simp only [not_or,Bool.not_eq_true',Bool.not_eq_false] at hops
    exact hops.2.2.1
  set device := orDefault env a.backend a.device
  split
  · have hm := releaseMapping_mapped env hb
    rw [if_pos (by simp [hm])]
    exact enter_sound (release_clear_sound h hb) rfl a device hu (by simp [clearWindow])
  next hsame =>
  split
  · next hm =>
    exact enter_sound (clearWindow_sound h hb (by simpa using hm)) rfl a device hu
      (by simp [clearWindow])
  · refine enter_sound h hb a device hu ?_
    intro hm
    simp only [hm,true_and,not_or,not_not] at hsame
    exact ⟨hsame.2.1,hsame.2.2.1⟩

theorem windowBegin_sound {a : Scope} : Sound env (dmaWindowBegin env s a).2 := by
  simp only [dmaWindowBegin]
  split
  · next hcached =>
    have hidle : s.window.active=false := by simpa using hcached.2
    exact windowBeginCommon_sound (release_clear_sound h (h.idle hidle))
  · exact windowBeginCommon_sound h

theorem windowEnd_sound : Sound env (dmaWindowEnd env s) := by
  simp only [dmaWindowEnd]
  split
  · exact h
  · next hends =>
    simp only [not_or,not_not] at hends
    exact release_clear_sound h hends.2

theorem cachedWindowDiscard_sound : Sound env (dmaCachedWindowDiscard env s) := by
  simp only [dmaCachedWindowDiscard]
  split
  · exact h
  · next hends =>
    simp only [not_or,not_not] at hends
    exact release_clear_sound h hends.2

theorem cachedWindowEnd_sound : Sound env (dmaCachedWindowEnd s) := by
  simp only [dmaCachedWindowEnd]
  split
  · exact h
  next hends =>
  simp only [not_or,not_not] at hends
  refine {h with idle := fun _ => hends.2,able := fun hm => ?_,lent := h.none_lent hends.2 _}
  exact h.able (by simpa using hm.imp_right fun hf => absurd hf (by simp))

theorem called_sound {c : BackendCall}
    (hw : ((ledger s.calls).settle c).window=(ledger s.calls).window)
    (ht : ((ledger s.calls).settle c).twice=(ledger s.calls).twice)
    (howed : (callerKeys s.mappings).Subperm ((ledger s.calls).settle c).caller) :
    Sound env (s.call c) :=
  {h with
    released := hw.trans h.released
    once := ht.trans h.once
    owed := howed
    returned := fun hm => mem_cons_of_mem _ (h.returned hm)}

omit h in
theorem remember_cases {s : State} {m : Mapping} {entry : Bool} :
    (∃ status,status≠.ok ∧ rememberDmaMappingFull s m entry=(status,s)) ∨ (m.cpuAddr≠0 ∧ m.size≠0 ∧
        rememberDmaMappingFull s m entry=(.ok,{s with mappings := m::s.mappings})) := by
  simp only [rememberDmaMappingFull]
  split
  · exact inl ⟨.invalid,by simp,rfl⟩
  next hargs =>
  simp only [not_or] at hargs
  split
  · exact inl ⟨.nomem,by simp,rfl⟩
  · exact inr ⟨hargs.1,hargs.2,rfl⟩

variable {dir : Direction}

theorem caller_unmapped_sound {d a n : Nat} (hin : (d,a)∈(ledger s.calls).caller)
    (howed : (callerKeys s.mappings).Subperm ((ledger s.calls).caller.erase (d,a))) :
    Sound env (s.call (.unmapped .caller d a n dir)) := by
  apply called_sound h <;> simp only [settle,if_pos hin]
  exact howed

theorem dead_unmapped_sound {d a n : Nat} (hout : (d,a)∉(ledger s.calls).caller)
    (hwin : s.window.mapped=false ∨ (d,a)≠s.window.key) :
    Sound env (s.call (.unmapped .caller d a n dir)) := by
  have hgone : (d,a)∉(ledger s.calls).window := by
    rw [h.released,Window.keys]
    rcases hwin with hm | hne
    · simp [hm]
    · split
      · simpa using hne
      · simp
  apply called_sound h <;> simp only [settle,if_neg hout]
  · exact erase_of_not_mem hgone
  · exact h.owed

omit h in
theorem keepMapping_cases {env : Env} {s : State} {backend : Nat} {dir : Direction} {m : Mapping}
    {entry : Bool} :
    keepMapping env s backend dir m entry=(.ok,{s with mappings := m::s.mappings}) ∨
      ∃ status,status≠.ok ∧ (keepMapping env s backend dir m entry=(status,s) ∨
        keepMapping env s backend dir m entry=
          (status,s.call (.unmapped .caller m.device m.dmaAddr m.size dir))) := by
  rcases remember_cases with ⟨status,hne,hr⟩ | ⟨-,-,hr⟩
  · refine inr ⟨status,hne,?_⟩
    rw [keepMapping,hr]
    cases status with
    | ok => exact absurd rfl hne
    | _ =>
      simp only
      split
      · exact inr rfl
      · exact inl rfl
  · left
    rw [keepMapping,hr]

theorem keepMapping_sound (backend : Nat) (dir : Direction) (m : Mapping) (entry : Bool)
    (hm : m.borrowedWindow=false) (c n : Nat) (e : Extent) (hfirst : e.first=m.dmaAddr) :
    Sound env (keepMapping env (s.call (.mapped .caller m.device c n dir e)) backend dir m
      entry).2 := by
  have hmade : Sound env (s.call (.mapped .caller m.device c n dir e)) :=
    called_sound h rfl rfl (h.owed.trans subperm_cons_self)
  have hcaller : (ledger (s.call (.mapped .caller m.device c n dir e)).calls).caller=
      m.key::(ledger s.calls).caller := by
    simp [call,ledger,settle,hfirst,Mapping.key]
  rcases keepMapping_cases
    with hk | ⟨_,-,hk | hk⟩
  · rw [hk]
    refine {hmade with counted := ?_,owed := ?_,lent := fun x hx hbx => ?_}
    · simpa [call,hm] using h.counted
    · rw [hcaller]
      simp only [callerKeys,filter_cons,hm]
      exact (subperm_cons _).mpr h.owed
    · rcases mem_cons.mp hx with rfl | hx
      · simp [hm] at hbx
      · exact h.lent x hx hbx
  · rw [hk]
    exact hmade
  · rw [hk]
    apply caller_unmapped_sound hmade
    · rw [hcaller]
      exact mem_cons_self
    · rw [hcaller]
      simpa [Mapping.key,call] using h.owed

theorem windowLend_sound {r : Request} {entry : Bool} (hactive : s.window.active=true)
    (hdevice : r.device=s.window.device) (hin : s.window.reuses r=true) :
    Sound env (dmaWindowLend s r entry).2 := by
  simp only [reuses,Bool.and_eq_true,decide_eq_true_eq] at hin
  simp only [dmaWindowLend]
  split
  · exact h
  set table := tableSlice s.window.pageDma ((r.cpuAddr-s.window.mappedStart)/pageSize)
    (pageCount r.size)
  set m : Mapping := ⟨r.cpuAddr,table.headD 0,r.size,r.device,true,false,.pages table⟩ with hmdef
  rcases remember_cases with ⟨status,hne,hr⟩ | ⟨-,-,hr⟩
  · rw [hr]
    split
    · next heq =>
      cases heq
      exact absurd rfl hne
    · next heq =>
      cases heq
      exact h
  · rw [hr]
    refine {h with
      idle := fun hoff => ?_
      counted := ?_
      owed := ?_
      lent := fun x hx hbx => ?_}
    · simp [hactive] at hoff
    · simpa [hmdef] using h.counted
    · simpa [callerKeys] using h.owed
    · rcases mem_cons.mp hx with rfl | hx
      · exact ⟨hin.1.1,hdevice,hin.1.2,hin.2,rfl⟩
      · exact {h.lent x hx hbx with}

theorem windowMapPages_sound (r : Request) (ans : Answer) :
    Sound env (dmaWindowMapPages env s r ans).2 := by
  simp only [dmaWindowMapPages]
  split
  · exact h
  next hserves =>
  simp only [Bool.not_eq_true',Bool.not_eq_false,serves,Bool.and_eq_true,
    decide_eq_true_eq] at hserves
  obtain ⟨⟨⟨⟨⟨⟨⟨hactive,-⟩,hdevice⟩,hdirection⟩,-⟩,-⟩,-⟩,-⟩ := hserves
  split
  · exact h
  split
  · next hin => exact windowLend_sound h hactive hdevice hin
  split
  · exact h
  next hb =>
  have hb0 : s.window.borrowers=0 := not_not.mp hb
  have hs1 := releaseMapping_sound h hb0
  obtain ⟨-,hdev,hdir,-,-⟩ := releaseMapping_scope env s
  have hm1 := releaseMapping_mapped env hb0
  set s1 := dmaWindowReleaseMapping env s
  split
  · exact hs1
  next hfits =>
  split
  · exact hs1
  split
  · exact hs1
  next table _ =>
  have hactive1 : s1.window.active=true := by rw [releaseMapping_active,hactive]
  have hmade := window_mapped_sound hs1 (by rw [releaseMapping_borrowers,hb0]) hm1 hactive1
    r.cpuAddr (s1.window.mapSize r) (pageCount (s1.window.mapSize r)) table
  rw [hdev,hdir,←hdevice,←hdirection] at hmade
  refine windowLend_sound hmade hactive1 (hdevice.trans hdev.symm) ?_
  simp only [reuses,Bool.and_eq_true,decide_eq_true_eq]
  refine ⟨⟨trivial,Nat.le_refl _⟩,?_⟩
  exact Nat.add_le_add_left (Nat.le_of_not_lt hfits) _

theorem mapPages_sound {r0 : Request} {ans : Answer} : Sound env (dmaMapPages env s r0 ans).2 := by
  simp only [dmaMapPages]
  split
  · exact h
  set r : Request := {r0 with device := orDefault env r0.backend r0.device}
  split
  · exact h
  split
  · exact h
  have hw := windowMapPages_sound h r ans
  split
  · next heq =>
    rw [heq] at hw
    exact hw
  next s1 heq =>
  rw [heq] at hw
  split
  · exact hw
  next table _ =>
  have hk := keepMapping_sound hw r.backend r.direction
    ⟨r.cpuAddr,table.headD 0,r.size,r.device,false,false,.pages table⟩ ans.entry rfl r.cpuAddr
    r.size (.pages table) rfl
  split
  · next hkeep =>
    rw [hkeep] at hk
    exact hk
  · next hkeep =>
    rw [hkeep] at hk
    exact hk

omit h in
theorem callerKeys_eraseP {ms : List Mapping} {p : Mapping → Bool} {m : Mapping}
    (hfind : ms.find? p=some m) (hm : m.borrowedWindow=false) :
    (callerKeys ms).Perm (m.key::callerKeys (ms.eraseP p)) := by
  have h := ((unlink_perm hfind).filter fun x => !x.borrowedWindow).map Mapping.key
  simpa [callerKeys,hm] using h

omit h in
theorem countP_eraseP {ms : List Mapping} {p : Mapping → Bool} {m : Mapping}
    (hfind : ms.find? p=some m) :
    ms.countP (·.borrowedWindow)=
      (ms.eraseP p).countP (·.borrowedWindow)+(if m.borrowedWindow then 1 else 0) := by
  rw [(unlink_perm hfind).countP_eq,countP_cons]

theorem unmap_sound {backend device0 dmaAddr size : Nat}
    (hok : NotStray env s (.unmap backend device0 dmaAddr size dir)) :
    Sound env (dmaUnmap env s backend device0 dmaAddr size dir) := by
  simp only [dmaUnmap]
  split
  · exact h
  simp only [NotStray] at hok
  set device := orDefault env backend device0
  simp only [takeDmaMapping]
  rcases Option.eq_none_or_eq_some (s.mappings.find? (Mapping.at device dmaAddr)) with
    hfind | ⟨m,hfind⟩
  · have hsame := unlink_none hfind
    simp only [hfind,hsame,Option.any_none,Bool.false_eq_true,if_false]
    split
    · by_cases hin : (device,dmaAddr)∈(ledger s.calls).caller
      · apply caller_unmapped_sound h hin
        -- no record has this key, so every record is owed without it
        have hout : (device,dmaAddr)∉callerKeys s.mappings := by
          intro hmem
          obtain ⟨m,hm,hkey⟩ := mem_map.mp hmem
          have hno := find?_eq_none.mp hfind m (mem_of_mem_filter hm)
          simp only [Mapping.key,Prod.mk.injEq] at hkey
          simp [Mapping.at,hkey.1,hkey.2] at hno
        have := h.owed.erase (device,dmaAddr)
        rwa [erase_of_not_mem hout] at this
      · apply dead_unmapped_sound h hin
        simpa [hfind] using hok
    · exact h
  · have hat := find?_some hfind
    simp only [Mapping.at,Bool.and_eq_true,decide_eq_true_eq] at hat
    have hkey : m.key=(device,dmaAddr) := by simp [Mapping.key,hat.1,hat.2]
    have hcount := countP_eraseP hfind
    rw [←h.counted] at hcount
    have hdrop : ∀ n,n=(s.mappings.eraseP (Mapping.at device dmaAddr)).countP (·.borrowedWindow) →
        Sound env {s with
          mappings := s.mappings.eraseP (Mapping.at device dmaAddr)
          window := {s.window with borrowers := n}} := by
      intro n hn
      refine {h with idle := fun hoff => ?_,counted := hn,owed := ?_,lent := fun x hx hbx => ?_}
      · have := h.idle hoff
        dsimp only
        omega
      · exact (eraseP_sublist.filter _).map _ |>.subperm.trans h.owed
      · exact {h.lent x (mem_of_mem_eraseP hx) hbx with}
    simp only [hfind,Option.any_some]
    split
    · next hb =>
      rw [if_pos hb] at hcount
      exact hdrop _ (by omega)
    next hb =>
    have hb' : m.borrowedWindow=false := by simpa using hb
    have hperm := callerKeys_eraseP hfind hb'
    rw [hkey] at hperm
    have hs1 := hdrop s.window.borrowers (by simpa [hb'] using hcount)
    split
    · have howed := hperm.symm.subperm.trans h.owed
      apply caller_unmapped_sound hs1
      · exact howed.subset mem_cons_self
      · have := howed.erase (device,dmaAddr)
        simpa using this
    · exact hs1

theorem windowStep_sound {op : WindowOp} (hok : NotStray env s op) :
    Sound env (windowStep env s op) := by
  cases op with
  | begin a => exact windowBegin_sound h
  | cachedBegin a => exact windowBeginCommon_sound h
  | windowEnd => exact windowEnd_sound h
  | cachedEnd => exact cachedWindowEnd_sound h
  | cachedDiscard => exact cachedWindowDiscard_sound h
  | mapPages r ans => exact mapPages_sound h
  | unmap backend device dmaAddr size direction =>
    exact unmap_sound h hok

end

/-- Unless an unmap without a record names its mapping, the window counts its borrowers, is mapped
while it has any, released once, and lends the backend's table. -/
theorem window_protocol_holds (env : Env) (ops : List WindowOp)
    (h : Meets (windowStep env) (NotStray env) {} ops) (n : Nat) :
    WindowProtocol (runAll (windowStep env) {} (ops.take n)) := by
  have hstep : ∀ s op,Sound env s → NotStray env s op → Sound env (windowStep env s op) :=
    fun s op hs hok => windowStep_sound hs hok
  exact (runAll_invariant hstep (fresh_sound) (h.take n)).protocol

/-- One backend with one device, which maps each page at its own address plus 1 MiB. -/
def plainEnv : Env := ⟨fun _ => some ⟨true,true,true,true,true,true⟩,fun _ => 1⟩

def plainAnswer : Answer where
  mapPages _ cpu size _ := .ok ((List.range (pageCount size)).map fun i => cpu+0x100000+i*4096)
  map _ cpu _ _ := .ok (cpu+0x100000)
  mapFixed := .ok
  alloc _ size := .ok (0x5000,0x105000,size)
  entry := true

def twoPages : List WindowOp := [.cachedBegin ⟨1,1,0x4000,0x2000,.toDevice⟩,
    .mapPages ⟨1,1,0x4000,0x1000,.toDevice,8⟩ plainAnswer,
    .mapPages ⟨1,1,0x5000,0x1000,.toDevice,8⟩ plainAnswer,
    .unmap 1 1 0x104000 0x1000 .toDevice]

theorem window_protocol_holds_two_pages :
    Meets (windowStep plainEnv) (NotStray plainEnv) {} twoPages ∧
      WindowProtocol (runAll (windowStep plainEnv) {} (twoPages.take 4)) :=
  ⟨by decide +kernel,window_protocol_holds plainEnv twoPages (by decide +kernel) 4⟩

/-- The second unmap of a page has no record and ends the window, which the other page borrows
from. -/
theorem double_unmap_ends_window :
    let s := runAll (windowStep plainEnv) {} (twoPages++[.unmap 1 1 0x104000 0x1000 .toDevice])
    let t := runAll (windowStep plainEnv) s [.unmap 1 1 0x105000 0x1000 .toDevice,.windowEnd]
    s.window.mapped=true ∧ s.window.borrowers=1 ∧ (ledger s.calls).window=[] ∧
      ¬WindowProtocol s ∧ (ledger t.calls).twice=true ∧ ¬WindowProtocol t := by
  refine ⟨by decide +kernel,by decide +kernel,by decide +kernel,?_,by decide +kernel,?_⟩
  · intro h
    have hreleased := h.released
    revert hreleased
    decide +kernel
  · intro h
    have honce := h.once
    revert honce
    decide +kernel

end Kobox.Dma
