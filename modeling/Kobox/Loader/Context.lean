import Mathlib.Tactic

namespace Kobox.Loader

/-- The branch of the conditional compilation around the GS value. -/
inductive GsPlatform
  | pachaos
  | linux
  | other
  deriving DecidableEq

/-- `kb_active_module`, `current_backend` and the GS base; 0 stands for no backend. -/
structure ModuleContext where
  active : Option Nat
  backend : Nat
  gs : Nat
  deriving DecidableEq

inductive Entry
  | init
  | cleanup

/-- What the context functions read of a module, and which of the two functions it has. -/
structure ContextModule where
  id : Nat
  backend : Nat
  kernelGs : Nat
  has : Entry → Bool

/-- KOBOX_DEVICE_BACKEND, and which of the system calls on the GS base succeed. -/
structure GsCalls where
  pachaosBackend : Bool
  clear : Bool
  get : Bool
  set : Bool
  getAgain : Bool
  restore : Bool

variable (p : GsPlatform)

/-- Whether the context was entered, the old GS value stored, and the context. -/
def enterModuleContext (s : ModuleContext) (m : ContextModule) (o : GsCalls) :
    Bool × Nat × ModuleContext :=
  let s := {s with backend := m.backend}
  match p with
  | .pachaos =>
    if o.set then (true,0,{s with gs := m.kernelGs}) else (false,0,{s with backend := 0})
  | .linux =>
    let s := if o.pachaosBackend ∧ o.clear then {s with gs := 0} else s
    if !o.get then (false,0,{s with backend := 0})
    else if o.set then (true,s.gs,{s with gs := m.kernelGs})
    else if o.getAgain ∧ s.gs=m.kernelGs then (true,s.gs,s)
    else (false,s.gs,{s with backend := 0})
  | .other => (true,0,s)

def leaveModuleContext (s : ModuleContext) (oldGs : Nat) (o : GsCalls) : ModuleContext :=
  let s := if p≠.other ∧ o.restore then {s with gs := oldGs} else s
  {s with backend := 0}

/-- What the two calls of a module's functions have in common. -/
def callModule (e : Entry) (m : ContextModule) (o : GsCalls) (body : ModuleContext → ModuleContext)
    (s : ModuleContext) : ModuleContext :=
  if !m.has e then s
  else
    match enterModuleContext p s m o with
    | (false,_,s) => s
    | (true,oldGs,s) =>
      {leaveModuleContext p (body {s with active := m.id}) oldGs o with active := none}

/-- `kb_module_call_init` around the module's function. -/
def moduleCallInit := callModule p .init

def moduleCallCleanup := callModule p .cleanup

/-- Calls that nest: a context entered and left, or a module's function called, around a body, and
what comes after. -/
inductive Script
  | done
  | enter (m : ContextModule) (o : GsCalls) (body next : Script)
  | call (e : Entry) (m : ContextModule) (o : GsCalls) (body next : Script)

/-- The context after a script; one that could not be entered is not left. -/
def Script.run : Script → ModuleContext → ModuleContext
  | .done,s => s
  | .enter m o body next,s =>
    match enterModuleContext p s m o with
    | (false,_,s) => next.run s
    | (true,oldGs,s) => next.run (leaveModuleContext p (body.run s) oldGs o)
  | .call .init m o body next,s => next.run (moduleCallInit p m o body.run s)
  | .call .cleanup m o body next,s => next.run (moduleCallCleanup p m o body.run s)

/-- What holds of each leave and return, from the contexts before and after. -/
def Script.Each (P : Script → ModuleContext → ModuleContext → Prop) :
    Script → ModuleContext → Prop
  | .done,_ => True
  | .enter m o body next,s =>
    match enterModuleContext p s m o with
    | (false,_,s1) => next.Each P s1
    | (true,oldGs,s1) =>
      let t := leaveModuleContext p (body.run p s1) oldGs o
      body.Each P s1 ∧ P (.enter m o body next) s t ∧ next.Each P t
  | .call e m o body next,s =>
    let t := callModule p e m o (body.run p) s
    let inner := enterModuleContext p s m o
    (m.has e ∧ inner.1 → body.Each P {inner.2.2 with active := m.id}) ∧
      P (.call e m o body next) s t ∧ next.Each P t

/-- The GS value comes back: the one read was not cleared before, and the system call succeeds. -/
def GsKept (o : GsCalls) (s : ModuleContext) : Prop :=
  p=.other ∨ o.restore ∧ (s.gs=0 ∨ p=.linux ∧ ¬(o.pachaosBackend ∧ o.clear))

/-- No backend is in force, for a call no module is active, and the GS value comes back. -/
def Outermost : Script → ModuleContext → Prop
  | .done,_ => True
  | .enter _ o _ _,s => s.backend=0 ∧ GsKept p o s
  | .call e m o _ _,s => m.has e → s.backend=0 ∧ s.active=none ∧ GsKept p o s

variable {p} {s : ModuleContext} {m : ContextModule} {o : GsCalls}

theorem enter_spec {ok : Bool} {old : Nat} {t : ModuleContext} (hk : GsKept p o s)
    (h : enterModuleContext p s m o=(ok,old,t)) :
    (p=.other → t.gs=s.gs) ∧ if ok then p=.other ∨ old=s.gs else t={s with backend := 0} := by
  cases p with
  | pachaos =>
    have hgs : o.restore ∧ s.gs=0 := by simpa [GsKept] using hk
    simp only [enterModuleContext] at h
    split_ifs at h <;> cases h <;> simp [hgs.2]
  | linux =>
    have hclear : (if o.pachaosBackend=true ∧ o.clear=true then
        {s with backend := m.backend,gs := 0} else {s with backend := m.backend})=
          {s with backend := m.backend} := by
      split
      · next hc =>
        have hgs : o.restore ∧ s.gs=0 := by simpa [GsKept,hc] using hk
        simp [hgs.2]
      · rfl
    simp only [enterModuleContext,hclear] at h
    split_ifs at h <;> cases h <;> simp
  | other =>
    cases h
    simp

theorem enter_active {ok : Bool} {old : Nat} {t : ModuleContext}
    (h : enterModuleContext p s m o=(ok,old,t)) : t.active=s.active := by
  cases p with
  | other =>
    cases h
    rfl
  | _ =>
    simp only [enterModuleContext] at h
    split_ifs at h <;> cases h <;> rfl

theorem leave_eq {t : ModuleContext} {old : Nat} (hb : s.backend=0) (hk : GsKept p o s)
    (hg : p=.other → t.gs=s.gs) (hold : p=.other ∨ old=s.gs) :
    {leaveModuleContext p t old o with active := s.active}=s := by
  obtain ⟨active,backend,gs⟩ := s
  cases hb
  unfold leaveModuleContext
  obtain rfl|⟨hr,-⟩ := hk
  · simpa using hg rfl
  · by_cases hp : p=.other
    · simpa [hp] using hg hp
    · simpa [hp,hr] using hold

theorem leave_active {t : ModuleContext} {old : Nat} :
    (leaveModuleContext p t old o).active=t.active := by
  simp only [leaveModuleContext]
  split <;> rfl

theorem run_gs (hp : p=.other) (script : Script) : (script.run p s).gs=s.gs := by
  subst hp
  induction script generalizing s with
  | done => rfl
  | enter m o body next ihb ihn => exact ihn.trans ihb
  | call e m o body next ihb ihn =>
    have hcall : (callModule .other e m o (body.run .other) s).gs=s.gs := by
      unfold callModule
      split
      · rfl
      · exact ihb
    cases e <;> exact ihn.trans hcall

theorem callModule_eq {e : Entry} {body : Script}
    (h : m.has e → s.backend=0 ∧ s.active=none ∧ GsKept p o s) :
    callModule p e m o (body.run p) s=s := by
  unfold callModule
  split
  · rfl
  · next hm =>
    obtain ⟨hb,ha,hk⟩ := h (by simpa using hm)
    split
    · next t he => simpa [← hb] using (enter_spec hk he).2
    · next old t he =>
      obtain ⟨hgs,hold⟩ := enter_spec hk he
      rw [← ha]
      exact leave_eq hb hk (fun hp => (run_gs hp body).trans (hgs hp)) hold

/-- From a context where each call is an outermost one, every leave and return restores the
context before it. -/
theorem contexts_restored {script : Script}
    (h : script.Each p (fun c s _ => Outermost p c s) s) :
    script.Each p (fun _ s t => t=s) s := by
  suffices script.Each p (fun _ s t => t=s) s ∧ (script.run p s).active=s.active from this.1
  induction script generalizing s with
  | done => exact ⟨trivial,rfl⟩
  | enter m o body next ihb ihn =>
    simp only [Script.Each,Script.run] at h ⊢
    split at h
    · next s1 he =>
      obtain ⟨hres,ha⟩ := ihn h
      exact ⟨hres,ha.trans (enter_active he)⟩
    · next old s1 he =>
      obtain ⟨hbody,⟨hb,hk⟩,hnext⟩ := h
      obtain ⟨hgs,hold⟩ := enter_spec hk he
      obtain ⟨hin,hactive⟩ := ihb hbody
      have heq := leave_eq hb hk (fun hp => (run_gs hp body).trans (hgs hp)) hold
      rw [← hactive.trans (enter_active he),← leave_active] at heq
      obtain ⟨hres,ha⟩ := ihn hnext
      exact ⟨⟨hin,heq,hres⟩,ha.trans (congrArg (·.active) heq)⟩
  | call e m o body next ihb ihn =>
    obtain ⟨hbody,hout,hnext⟩ := h
    have he : callModule p e m o (body.run p) s=s := callModule_eq hout
    obtain ⟨hres,ha⟩ := ihn hnext
    refine ⟨⟨fun hin => (ihb (hbody hin)).1,he,hres⟩,?_⟩
    cases e <;> exact ha.trans (congrArg (·.active) he)

def allSucceed : GsCalls := ⟨false,true,true,true,true,true⟩

def withoutBackend : ContextModule := ⟨1,0,0x7000,fun _ => true⟩

theorem contexts_restored_nested :
    let script := Script.call .cleanup withoutBackend allSucceed
      (.enter withoutBackend allSucceed .done .done) .done
    script.Each .linux (fun _ s t => t=s) ⟨none,0,0x5000⟩ :=
  contexts_restored ⟨fun _ => ⟨trivial,⟨rfl,.inr ⟨rfl,.inr ⟨rfl,nofun⟩⟩⟩,trivial⟩,
    fun _ => ⟨rfl,rfl,.inr ⟨rfl,.inr ⟨rfl,nofun⟩⟩⟩,trivial⟩

/-- A context entered and left within the init function of a module with a backend leaves none. -/
theorem backend_lost :
    ¬(Script.call .init {withoutBackend with backend := 8} allSucceed
      (.enter withoutBackend allSucceed .done .done) .done).Each .linux (fun _ s t => t=s)
        ⟨none,0,0x5000⟩ := by
  rintro ⟨hbody,-⟩
  obtain ⟨-,hback,-⟩ := hbody ⟨rfl,rfl⟩
  cases hback

end Kobox.Loader
