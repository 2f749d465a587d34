import Kobox.Loader.Loaded
import Kobox.Loader.RelocationProof

namespace Kobox.Loader

open Prog Or Patched
open Moves (fail get_bind loopFrom modify ofExcept pure stages)

theorem eachSymbol_moves {R : Load → Load → Prop} (hr : ∀ s,R s s)
    (ht : ∀ a b c,R a b → R b c → R a c) {body : Nat → Nat → Symbol → Prog Load Status Unit}
    (hbody : ∀ i k symbol,Moves R (body i k symbol)) : Moves R (eachSymbol body) := by
  intro s
  apply loopFrom hr ht
  intro i
  apply Moves.bind ht (ofExcept hr _)
  intro sec
  apply Moves.ite
  · intro _
    exact pure hr ()
  intro _
  apply Moves.bind ht (ofExcept hr _)
  apply loopFrom hr ht
  intro k
  exact Moves.bind ht (ofExcept hr _) fun symbol => hbody i k symbol

theorem tracePatchSize_fits {size value symbolSize : Nat} (h : value<size) :
    value+(tracePatchSize size value symbolSize-1+1) ≤ size := by
  have hpos : tracePatchSize size value symbolSize ≤ size-value := by
    simp only [tracePatchSize]
    split <;> split <;> omega
  omega

section

variable {env : Env} {J : Prop} {R : Load → Load → Prop} (hR : Resolving env (fun _ => True) J R)

include hR

theorem patchStaticTraceCall_moves {symbol : Symbol} : Moves R (patchStaticTraceCall symbol) := by
  apply get_bind
  intro s
  split
  · exact hR.refl s
  apply Moves.check_bind (hR.refl s)
  intro target _
  by_cases hskip : (s.module.sections symbol.sectionIndex).base=0 ∨
      !Elf.shfExecinstr target.flags ∨ (s.module.sections symbol.sectionIndex).size ≤ symbol.value
  · simp only [hskip,if_true]
    exact hR.refl s
  simp only [hskip,if_false]
  have hlt : symbol.value<(s.module.sections symbol.sectionIndex).size := by
    by_contra hge
    exact hskip (inr (inr (by omega)))
  apply hR.store s _ _ _ trivial
  simpa using tracePatchSize_fits hlt

theorem patchStaticTraceCalls_moves : Moves R patchModuleStaticTraceCalls :=
  eachSymbol_moves hR.refl hR.trans fun _ _ _ => patchStaticTraceCall_moves hR

theorem patchDoorbellAt_moves (stub i offset : Nat) : Moves R (patchDoorbellAt stub i offset) := by
  intro s
  unfold patchDoorbellAt
  dsimp only
  split
  · exact hR.refl s
  next hmatch =>
  split
  · exact hR.refl s
  have hroom : 5+xhciHelperSuffix.length≤(s.module.sections i).size-offset := by
    simp only [xhciHelperMatches,Bool.not_eq_true,Bool.not_eq_false',Bool.and_eq_true,
      decide_eq_true_eq] at hmatch
    exact hmatch.1.1
  apply hR.store s _ _ _ trivial
  have hlen : (0xe9::le32 (wordSub stub (((s.module.sections i).base+offset+5)%wordSize))).length=5 := by
    simp [le32]
  omega

theorem patchXhciCommandDoorbell_moves : Moves R (patchModuleXhciCommandDoorbell env) := by
  apply get_bind
  intro s
  split
  · exact hR.refl s
  apply Moves.bind hR.trans (hR.lookup _ fun he => absurd he (by decide))
  intro stub
  apply Moves.ite
  · intro _
    exact fail hR.refl _
  intro _
  apply loopFrom hR.refl hR.trans
  intro i
  apply Moves.ite
  · intro _
    exact pure hR.refl ()
  · intro _
    exact loopFrom hR.refl hR.trans (patchDoorbellAt_moves hR stub i) _ _

end

/-- The registry gained entries of one owner, in slots that were free. -/
structure Owned (owner : Nat) (r r' : SymbolRegistry) : Prop where
  slots : SlotsOk r → SlotsOk r'
  entry : ∀ i,r' i=r i ∨ ((r i).name=none ∧ (r' i).owner=owner ∧ i<exportedSymbolMax ∧ owner≠0)

theorem Owned.refl (owner : Nat) (r : SymbolRegistry) : Owned owner r r := ⟨id,fun _ => inl rfl⟩

theorem Owned.trans {owner : Nat} {a b c : SymbolRegistry} (h : Owned owner a b)
    (k : Owned owner b c) : Owned owner a c := by
  refine ⟨fun hs => k.slots (h.slots hs),?_⟩
  intro i
  rcases k.entry i with hk|⟨hn,ho⟩
  · rw [hk]
    exact h.entry i
  · rcases h.entry i with hh|⟨hn',_⟩
    · exact inr ⟨hh ▸ hn,ho⟩
    · exact inr ⟨hn',ho⟩

theorem addExport_owned {r : SymbolRegistry} {name : Option String} {address owner : Nat} :
    Owned owner r (addExport r name address owner).2 := by
  refine ⟨fun hr => hr.add name address owner,?_⟩
  intro i
  unfold addExport
  split
  · exact inl rfl
  split
  · exact inl rfl
  next harg =>
  split
  · exact inl rfl
  split
  · next k hk =>
    by_cases hi : i=k
    · subst hi
      have hfree := firstSlot_some hk
      exact inr ⟨Option.isNone_iff_eq_none.mp hfree.2.2.1,by simp,by omega,
        fun h0 => harg (inr (inr h0))⟩
    · exact inl (by simp [Function.update_of_ne hi])
  · exact inl rfl

theorem Owned.removed {owner : Nat} {r r' : SymbolRegistry} (h : Owned owner r r')
    (hr : SlotsOk r) (hno : ∀ i,(r i).owner≠owner) : removeOwner r' owner=r := by
  funext i
  unfold removeOwner
  split
  · next h0 =>
    rcases h.entry i with he|⟨_,_,_,hne⟩
    · exact he
    · exact absurd h0 hne
  · dsimp only
    split
    · next hd =>
      rcases h.entry i with he|⟨hn,_⟩
      · rw [he] at hd
        exact absurd hd.2 (hno i)
      · exact (hr.free i hn).symm
    · next hd =>
      rcases h.entry i with he|⟨_,ho,hlt,_⟩
      · exact he
      · exact absurd ⟨hlt,ho⟩ hd

structure Exported (s t : Load) : Prop where
  module : t.module={ s.module with
    initModule := t.module.initModule
    cleanupModule := t.module.cleanupModule }
  globals : t.globals={ s.globals with registry := t.globals.registry }
  registry : Owned s.module.self s.globals.registry t.globals.registry

theorem Exported.refl (s : Load) : Exported s s := ⟨rfl,rfl,Owned.refl _ _⟩

theorem Exported.plan {s t : Load} (h : Exported s t) : t.module.plan=s.module.plan := by
  rw [h.module]
  rfl

theorem Exported.trans (a b c : Load) (h : Exported a b) (k : Exported b c) : Exported a c := by
  have hself : b.module.self=a.module.self := congrArg Plan.self h.plan
  have hreg := k.registry
  rw [hself] at hreg
  refine ⟨?_,?_,h.registry.trans hreg⟩
  · rw [k.module,h.module]
  · rw [k.globals,h.globals]

theorem registerExports_moves (env : Env) : Moves Exported (registerModuleExports env) := by
  apply eachSymbol_moves Exported.refl Exported.trans
  intro i k symbol s
  unfold registerExport
  split
  · exact Exported.refl s
  split
  · exact Exported.refl s
  · exact ⟨rfl,rfl,addExport_owned⟩

theorem findEntry_moves {env : Env} {name : String} : Moves Exported (findEntry env name) := by
  intro s
  unfold findEntry
  split
  · exact Exported.refl s
  · split <;> exact Exported.refl s

theorem findEntries_moves (env : Env) : Moves Exported (findEntries env) := by
  apply Moves.bind Exported.trans (findEntry_moves)
  intro init
  apply Moves.bind Exported.trans
  · exact modify fun s => ⟨rfl,rfl,Owned.refl _ _⟩
  intro _
  apply Moves.bind Exported.trans (findEntry_moves)
  intro cleanup
  exact modify fun s => ⟨rfl,rfl,Owned.refl _ _⟩

structure Protected (s t : Load) : Prop where
  module : t.module={ s.module with protection := t.module.protection }
  globals : t.globals={ s.globals with process := t.globals.process }
  process : Grows s.globals.process t.globals.process

open Protected

theorem Protected.refl (s : Load) : Protected s s := ⟨rfl,rfl,Grows.refl _⟩

theorem Protected.trans (a b c : Load) (h : Protected a b) (k : Protected b c) : Protected a c := by
  refine ⟨?_,?_,h.process.trans k.process⟩
  · rw [k.module,h.module]
  · rw [k.globals,h.globals]

variable (env : Env)

theorem protectRange_moves (start len : Nat) (prot : Prot) :
    Moves Protected (protectRange env start len prot) := by
  intro s
  unfold protectRange
  dsimp only
  split
  · exact ⟨rfl,rfl,rfl,fun _ h => h⟩
  · exact ⟨rfl,rfl,rfl,fun _ h => h⟩

theorem flushRun_moves {run : ProtectionRun} : Moves Protected (flushRun env run) := by
  unfold flushRun
  split
  · exact pure refl ()
  · exact protectRange_moves env _ _ _

theorem protectSection_moves (sec : LoadedSection) (run : ProtectionRun) :
    Moves Protected (protectSection env sec run) := by
  apply Moves.ite
  · intro _
    exact pure refl _
  intro _
  apply Moves.ite
  · intro _
    exact pure refl _
  · intro _
    exact Moves.bind trans (flushRun_moves env) fun _ =>
      pure refl _

theorem protectSections_moves (i n : Nat) (run : ProtectionRun) :
    Moves Protected (protectSections env i n run) := by
  induction n generalizing i run with
  | zero => exact pure refl run
  | succ n ih =>
    intro s
    exact Moves.bind trans (protectSection_moves env _ run) (fun next => ih (i+1) next) s

theorem finalize_moves : Moves Protected (finalizeSectionProtections env) := by
  intro s
  refine Moves.bind trans (protectRange_moves env _ _ _) (fun _ => ?_) s
  refine Moves.bind trans (protectSections_moves env _ _ _) (fun run => ?_)
  refine Moves.bind trans (flushRun_moves env) (fun _ => ?_)
  refine Moves.bind trans (protectRange_moves env _ _ _) (fun _ => ?_)
  exact protectRange_moves env _ _ _

/-- The stages of a whole load: sections, patches, exports, protections. -/
structure Prepared (s : Load) (l : Layout) (v a b c t : Load) : Prop where
  loaded : Loaded env s l v a
  patched : Patched env a b
  exported : Exported b c
  finished : finalizeSectionProtections env c=(.ok (),t)

theorem patchAndExport_moves :
    Moves (fun s t => ∃ b,Patched env s b ∧ Exported b t) (patchAndExport env) := by
  intro s
  have hR := (relocating env).resolving
  have hexport := Moves.bind Exported.trans (registerExports_moves env) fun _ =>
    findEntries_moves env
  obtain ⟨a,h1,b,h2,h3⟩ := stages (fun a => ⟨a,refl env a,Exported.refl a⟩)
    (patchStaticTraceCalls_moves hR) (fun _ => stages Exported.refl
      (patchXhciCommandDoorbell_moves hR) fun _ => hexport) s
  exact ⟨b,trans env _ _ _ h1 h2,h3⟩

theorem prepareModule_ok {s t : Load} (hb : s.module.Blank) (h : prepareModule env s=(.ok (),t)) :
    ∃ l v a b c,Prepared env s l v a b c t := by
  obtain ⟨_,a,ha,h⟩ := bind_eq_ok.mp h
  obtain ⟨_,x,hx,h⟩ := bind_eq_ok.mp h
  obtain ⟨_,c,hc,h⟩ := bind_eq_ok.mp h
  obtain ⟨l,v,hl⟩ := loadSections_ok hb ha
  have hrel := applyRelocations_moves env a
  rw [hx] at hrel
  obtain ⟨b,hpb,hexp⟩ := patchAndExport_moves env x
  rw [hc] at hexp
  exact ⟨l,v,a,b,c,hl,trans env _ _ _ hrel hpb,hexp,h⟩

end Kobox.Loader
