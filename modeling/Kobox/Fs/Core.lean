import Kobox.Framework.Blind
import Kobox.Fs.Bio

namespace Kobox.Fs

open FsState

variable {δ : Type} {env : Env δ}

/-- What transfers and completions of bios depend on. -/
def FsState.core (s : FsState δ) : FsState δ :=
  { s with
    iters := fun _ => ⟨0,0,0⟩
    heads := fun head => ⟨⟨false,false,false,false,false,false⟩,0,0,0,0,0,0,(s.heads head).endIo⟩
    headLive := fun _ => false
    evictCursor := 0
    bios := fun bio => { s.bios bio with submitted := 0,queued := false }
    nextBio := 0
    queue := []
    queueDepth := 0
    autoDrain := false
    plugDepth := 0
    lastDrainStatus := 0
    blockBits := fun _ => none
    fileFolio := fun _ => false
    trace := []
    hung := false }

variable (s : FsState δ)

theorem core_core : s.core.core=s.core := rfl

abbrev Sees (f : FsState δ → FsState δ) : Prop := Blind FsState.core f

abbrev SeesProg {α : Type} (x : Prog (FsState δ) Int α) : Prop := Prog.Blind FsState.core x

theorem core_onBio {bio : Nat} {f : BioRecord → BioRecord} (hf : ∀ r : BioRecord,
      ({ f { r with submitted := 0,queued := false } with submitted := 0,queued := false } :
        BioRecord)={ f r with submitted := 0,queued := false }) :
    (s.core.onBio bio f).core=(s.onBio bio f).core := by
  have hbios : (fun b => ({ (s.core.onBio bio f).bios b with
      submitted := 0,queued := false } : BioRecord))=
      fun b => { (s.onBio bio f).bios b with submitted := 0,queued := false } := by
    funext b
    by_cases hb : b=bio
    · subst hb
      simp only [onBio,Function.update_self]
      exact hf (s.bios b)
    · simp only [onBio,Function.update_of_ne hb]
      rfl
  simp only [core] at hbios ⊢
  simp only [onBio] at hbios ⊢
  rw [hbios]

theorem setStatus_sees {bio status : Nat} : Sees (setStatus bio status : FsState δ → FsState δ) :=
  fun s => core_onBio s fun _ => rfl

theorem vectorRequests_core (offset : Nat) (vs : List BioVec) :
    vectorRequests env s.core offset vs=vectorRequests env s offset vs := by
  induction vs generalizing offset with
  | nil => rfl
  | cons v vs ih =>
    simp only [vectorRequests,ih]
    rfl

variable {x : Prog (FsState δ) Int Unit} (bio : Nat)

theorem settle_sees (hx : SeesProg x) : SeesProg (settle bio x) := by
  intro s
  obtain ⟨h1,h2⟩ := hx s
  simp only [settle]
  rcases hc : x s.core with ⟨r,t⟩
  rcases hs : x s with ⟨q,u⟩
  rw [hc,hs] at h1 h2
  obtain rfl : r=q := h1
  cases r <;> exact ⟨rfl,(setStatus_sees).congr h2⟩

theorem settleFailure_sees (hx : SeesProg x) : SeesProg (settleFailure bio x) := by
  intro s
  obtain ⟨h1,h2⟩ := hx s
  simp only [settleFailure]
  rcases hc : x s.core with ⟨r,t⟩
  rcases hs : x s with ⟨q,u⟩
  rw [hc,hs] at h1 h2
  obtain rfl : r=q := h1
  cases r with
  | ok _ => exact ⟨rfl,h2⟩
  | error e => exact ⟨rfl,(setStatus_sees).congr h2⟩

end Kobox.Fs
