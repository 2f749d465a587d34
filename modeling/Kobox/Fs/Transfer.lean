import Kobox.Framework.Emits
import Kobox.Framework.Throws
import Kobox.Fs.DeviceMoves
import Kobox.Fs.Drain

namespace Kobox.Fs

open Prog Blind Throws

/-- What a transfer itself adds to the trace. -/
def Event.OfTransfer : Event → Prop
  | .bio _ _ => True
  | .disk _ _ _ _ => True
  | _ => False

variable {δ : Type} {env : Env δ}

/-- A transfer reaches disks, memory, the allocation counter and status bytes only. -/
structure Transferred (s t : FsState δ) : Prop where
  rest : t={ s with
    disks := t.disks,mem := t.mem,allocations := t.allocations,bios := t.bios,trace := t.trace }
  bios : ∀ b,∃ status,t.bios b={ s.bios b with bio := { (s.bios b).bio with status := status } }
  emits : Emits FsState.trace Event.OfTransfer s t

theorem Transferred.refl (s : FsState δ) : Transferred s s := ⟨rfl,fun _ => ⟨_,rfl⟩,Emits.refl s⟩

theorem Transferred.trans (a b c : FsState δ) (h : Transferred a b) (k : Transferred b c) :
    Transferred a c := by
  refine ⟨?_,?_,Emits.trans a b c h.emits k.emits⟩
  · rw [k.rest,h.rest]
  · intro i
    obtain ⟨u,hu⟩ := h.bios i
    obtain ⟨w,hw⟩ := k.bios i
    exact ⟨w,by rw [hw,hu]⟩

theorem transferred_rules {env : Env δ} :
    DeviceRules env (fun _ _ => True) (Moves Transferred) := DeviceClosed.rules {
  refl := Transferred.refl
  trans := Transferred.trans
  inside := fun _ _ _ => trivial
  ask := fun _ _ _ _ => ⟨rfl,fun _ => ⟨_,rfl⟩,Emits.one rfl trivial⟩
  mem := fun s _ => ⟨rfl,fun _ => ⟨_,rfl⟩,Emits.silent rfl⟩
  alloc := fun s => ⟨rfl,fun _ => ⟨_,rfl⟩,Emits.silent rfl⟩
  status := by
    intro s bio status
    refine ⟨rfl,?_,Emits.silent rfl⟩
    intro b
    by_cases hb : b=bio
    · subst hb
      exact ⟨status,by simp [setStatus,FsState.onBio]⟩
    · exact ⟨(s.bios b).bio.status,by simp [setStatus,FsState.onBio,hb]⟩ }

variable {P : ∀ {α : Type},Prog (FsState δ) Int α → Prop} {x : Prog (FsState δ) Int Unit}
  {s : FsState δ} {bio : Nat}

theorem Carries.rule (C : DeviceRules env (fun _ _ => True) @P)
    (hnote : ∀ d b,P (modify fun s => s.note (.bio d b))) (h : Carries env s bio x) : P x := by
  cases h with
  | single => exact bioSubmitNow_rule C (fun _ _ _ _ _ _ _ _ => trivial) hnote
  | @reads d rs _ _ _ => exact deviceReadBatch_rule C d rs
  | @writes d rs _ _ _ _ => exact deviceWriteBatch_rule C d rs

theorem Carries.transferred (h : Carries env s bio x) : Moves Transferred x :=
  h.rule (transferred_rules) fun _ _ _ => ⟨rfl,fun _ => ⟨_,rfl⟩,Emits.one rfl trivial⟩

theorem bioSubmitNow_transferred {bio : Nat} : Moves Transferred (bioSubmitNow env bio) :=
  fun s => (Carries.single (s := s)).transferred s

theorem sees_rules {env : Env δ} : DeviceRules env (fun _ _ => True) SeesProg where
  toRules := rules core_core
  inside := fun _ _ _ => trivial
  ask := by
    intro α d r f _ hf s
    exact (hf _ ⟨_,r,rfl⟩).congr rfl
  checkStatus := fun _ =>
    iteInduction (fun _ => pure core_core ()) fun _ => fail core_core _
  mem := fun hf => modify hf.sees
  allocate := fun _ => ⟨rfl,rfl⟩
  settle := fun bio _ => settle_sees bio
  settleFailure := fun bio _ => settleFailure_sees bio
  status := fun bio status => modify (setStatus_sees)

theorem bioSubmitNow_sees {bio : Nat} : SeesProg (bioSubmitNow env bio) := fun s =>
  Carries.single.rule (s := s) (sees_rules) (fun _ _ => modify fun _ => rfl) s

/-- Drivers answer 0 or a negative errno. -/
def StatusesNonpos (env : Env δ) : Prop := ∀ disk r,(env.reply disk r).1.status≤0

/-- How code over the disks fails: with an errno of the layer, or with what a disk answered. -/
def IsFailure (env : Env δ) (e : Int) : Prop := e<0 ∨ (e≠0 ∧ ∃ disk r,(env.reply disk r).1.status=e)

variable {e : Int}

theorem IsFailure.ne_zero (h : IsFailure env e) : e≠0 := by
  rcases h with h|h
  · exact h.ne
  · exact h.1

theorem IsFailure.negative (h : IsFailure env e) (hn : StatusesNonpos env) : e<0 := by
  rcases h with h|⟨h0,disk,r,hr⟩
  · exact h
  · have := hn disk r
    omega

abbrev Fails (env : Env δ) {α : Type} (x : Prog (FsState δ) Int α) : Prop :=
  Prog.Throws (IsFailure env) x

theorem fails_rules {env : Env δ} : DeviceRules env (fun _ _ => True) (Fails env) where
  toRules := rules fun _ => Or.inl
  inside := fun _ _ _ => trivial
  ask := by
    intro α d r f _ hf
    exact ⟨fun s e t h => (hf _ ⟨_,r,rfl⟩).error _ e t h⟩
  checkStatus := by
    intro status h
    constructor
    intro s e t he
    unfold checkStatus at he
    split_ifs at he with h0
    · cases he
    · cases he
      exact Or.inr ⟨h0,h⟩
  mem := fun _ => modify _
  allocate := total fun _ => ⟨_,_,rfl⟩
  settle := by
    intro bio x hx
    constructor
    intro s e t h
    unfold settle at h
    rcases hr : x s with ⟨r,u⟩
    rw [hr] at h
    cases r with
    | ok _ => cases h
    | error f =>
      cases h
      exact hx.error s e u hr
  settleFailure := by
    intro bio x hx
    constructor
    intro s e t h
    unfold settleFailure at h
    rcases hr : x s with ⟨r,u⟩
    rw [hr] at h
    cases r with
    | ok _ => cases h
    | error f =>
      cases h
      exact hx.error s e u hr
  status := fun _ _ => modify _

theorem Carries.fails (h : Carries env s bio x) : Fails env x :=
  h.rule (fails_rules) fun _ _ => modify _

end Kobox.Fs
