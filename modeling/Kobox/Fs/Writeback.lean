import Kobox.Fs.LayerMoves

namespace Kobox.Fs

open FsState List Or

def failedIn (es : List Event) : List Nat := es.filterMap fun
  | .done bio result => if result=0 then none else some bio
  | _ => none

section

variable {δ : Type}

def FsState.since (s t : FsState δ) : List Event := t.trace.drop s.trace.length

/-- What writeback looks at in a mapping; the operation may be any code of the module. -/
structure WritebackMapping (δ : Type) where
  address : Nat
  dirtyMark : Bool
  writepages : Option (FsState δ → Int × FsState δ)

variable (env : Env δ) (callback : Call → FsState δ → FsState δ) (fuel : Nat)

def filemapWritebackRange (m : WritebackMapping δ) (start stop : Int) (s : FsState δ) :
    Int × FsState δ :=
  if m.address=0 ∨ start<0 ∨ stop<start then (einval,s)
  else if !m.dirtyMark then (0,s)
  else
    match m.writepages with
    | none => (eopnotsupp,s)
    | some writepages =>
      let r := writepages { s with autoDrain := false }
      let t := (kbFsSubsystemBioDrain env callback fuel r.2).2
      (if r.1≠0 then r.1 else t.lastDrainStatus,{ t with autoDrain := s.autoDrain })

def kbFsSubsystemFilemapWriteAndWaitRange (m : WritebackMapping δ) (start stop : Int)
    (s : FsState δ) : Int × FsState δ :=
  filemapWritebackRange env callback fuel m start stop s

/-- The mapping is not looked at. -/
def kbFsSubsystemFilemapWaitRange (start stop : Int) (s : FsState δ) : Int × FsState δ :=
  if start<0 ∨ stop<start then (einval,s)
  else (0,(kbFsSubsystemBioDrain env callback fuel s).2)

end

@[simp] theorem failedIn_append {us ws : List Event} :
    failedIn (us++ws)=failedIn us++failedIn ws := by
  simp [failedIn]

theorem failedIn_transfer {es : List Event} (h : ∀ e∈es,e.OfTransfer) : failedIn es=[] := by
  simp only [failedIn,filterMap_eq_nil_iff]
  intro e he
  cases e <;> first | rfl | exact absurd (h _ he) id

section

variable {δ : Type} {env : Env δ} {callback : Call → FsState δ → FsState δ}

/-- A drain is under way that has to report failures. -/
structure Draining (s : FsState δ) : Prop where
  manual : s.autoDrain=false
  status : s.lastDrainStatus≤0

/-- No failure gets lost: one that was recorded still is, and one that happened has been. -/
structure Reports (s t : FsState δ) : Prop where
  draining : Draining t
  kept : ∃ es,t.trace=s.trace++es ∧ (s.lastDrainStatus<0 ∨ failedIn es≠[] → t.lastDrainStatus<0)

theorem Reports.trans {a b c : FsState δ} (h : Reports a b) (k : Reports b c) : Reports a c := by
  obtain ⟨us,hus,hu⟩ := h.kept
  obtain ⟨ws,hws,hw⟩ := k.kept
  refine ⟨k.draining,us++ws,by rw [hws,hus,append_assoc],?_⟩
  intro hc
  rw [failedIn_append,ne_eq,append_eq_nil_iff,not_and_or] at hc
  rcases hc with h0|h0|h0
  · exact hw (inl (hu (inl h0)))
  · exact hw (inl (hu (inr h0)))
  · exact hw (inr h0)

@[simp] theorem setDirty_lastDrainStatus (slot : Option Nat) (dirty : Bool)
    (s : FsState δ) : (bufferCacheSetDirty slot dirty s).lastDrainStatus=s.lastDrainStatus := by
  rw [setDirty_eq]

@[simp] theorem setDirty_autoDrain (slot : Option Nat) (dirty : Bool) (s : FsState δ) :
    (bufferCacheSetDirty slot dirty s).autoDrain=s.autoDrain := by
  rw [setDirty_eq]

variable {s t : FsState δ} (hs : Draining s)

include hs

theorem Draining.still (es : List Event) (ht : t.trace=s.trace++es)
    (hes : failedIn es=[]) (hl : t.lastDrainStatus=s.lastDrainStatus) (ha : t.autoDrain=s.autoDrain) :
    Reports s t := by
  refine ⟨⟨by rw [ha]; exact hs.manual,by rw [hl]; exact hs.status⟩,es,ht,?_⟩
  intro hc
  rw [hl]
  rcases hc with h0|h0
  · exact h0
  · exact absurd hes h0

theorem Draining.silent (ht : t.trace=s.trace) (hl : t.lastDrainStatus=s.lastDrainStatus)
    (ha : t.autoDrain=s.autoDrain) : Reports s t :=
  hs.still [] (by rw [ht,append_nil]) rfl hl ha

theorem Transferred.reports (h : Transferred s t) : Reports s t := by
  obtain ⟨es,hes,hall⟩ := h.emits
  exact hs.still es hes (failedIn_transfer hall) (by rw [h.rest]) (by rw [h.rest])

theorem endWriteSync_reports {head : Nat} {uptodate : Bool} :
    Reports s (endBufferWriteSync head uptodate s) := by
  apply hs.still [.wrote head uptodate]
  · cases uptodate <;> simp [endBufferWriteSync,note]
  · rfl
  · cases uptodate <;> simp [endBufferWriteSync,note,onHead]
  · cases uptodate <;> simp [endBufferWriteSync,note,onHead]

theorem bioPut_reports {bio : Nat} : Reports s (bioPut bio s) := by
  apply hs.silent (bioPut_trace)
  · simp only [bioPut,bioQueueRemove]
    split_ifs <;> rfl
  · simp only [bioPut,bioQueueRemove]
    split_ifs <;> rfl

theorem bioQueuePops_reports (n : Nat) : Reports s (bioQueuePops n s) := by
  induction n generalizing s with
  | zero => exact hs.silent rfl rfl rfl
  | succ n ih =>
    have h1 : Reports s (bioQueuePop s) := by
      unfold bioQueuePop
      split <;> exact hs.silent rfl rfl rfl
    exact h1.trans (ih h1.draining)

variable (hcb : ∀ c s,Draining s → Reports s (callback c s))

include hcb

theorem headComplete_reports (head : Nat) {success : Bool} :
    Reports s (bufferHeadComplete callback head success s) := by
  apply headComplete_rule
  · exact hs.still [.read head success] rfl rfl rfl rfl
  · exact fun _ => endWriteSync_reports hs
  · exact fun _ => hcb _ s hs

theorem bioCallEndIo_reports {bio : Nat} : Reports s (bioCallEndIo callback bio s) := by
  have h1 : Reports s (s.onBio bio fun r => { r with completed := true }) :=
    hs.silent rfl rfl rfl
  apply bioCallEndIo_rule rfl (hs.silent rfl rfl rfl) h1
  · exact fun _ success => h1.trans (headComplete_reports h1.draining hcb _)
  · exact fun u hu => hu.trans (bioPut_reports hu.draining)
  · exact fun _ => h1.trans (hcb _ _ h1.draining)

theorem bioFinishRecord_reports (bio : Nat) {status : Int}
    (hst : status≠0 → s.lastDrainStatus<0) : Reports s (bioFinishRecord callback bio status s) := by
  have h1 : Reports s ((s.onBio bio fun r => { r with
      result := status
      bio := { r.bio with status := if status=0 then 0 else 1 } }).note (.done bio status)) := by
    refine ⟨⟨hs.manual,hs.status⟩,[.done bio status],rfl,?_⟩
    intro hc
    rcases hc with h0|h0
    · exact h0
    · apply hst
      rintro rfl
      exact h0 rfl
  exact h1.trans (bioCallEndIo_reports h1.draining hcb)

theorem bioFinishRecords_reports {bios : List Nat} {status : Int}
    (hst : status≠0 → s.lastDrainStatus<0) : Reports s (bioFinishRecords callback bios status s) := by
  induction bios generalizing s with
  | nil => exact hs.silent rfl rfl rfl
  | cons bio bios ih =>
    have h1 := bioFinishRecord_reports hs hcb bio hst
    refine h1.trans (ih h1.draining ?_)
    intro h0
    obtain ⟨_,_,hk⟩ := h1.kept
    exact hk (inl (hst h0))

theorem drainBatch_reports {x : Prog (FsState δ) Int Unit} (hx : Prog.Moves Transferred x)
    (hneg : Prog.Throws (fun e => e<0) x) {n : Nat} : Reports s (drainBatch callback n x s) := by
  have h1 := bioQueuePops_reports hs n
  have h2 := (hx (bioQueuePops n s)).reports h1.draining
  simp only [drainBatch]
  rcases hr : x (bioQueuePops n s) with ⟨r,t⟩
  rw [hr] at h2
  -- the status of the transfer is recorded before its records complete
  have hfail : ∀ e,r=.error e → e<0 := fun e he => hneg.error _ e t (he ▸ hr)
  have hres : resultOf r≤0 := by
    cases r with
    | ok _ => exact le_rfl
    | error e => exact le_of_lt (hfail e rfl)
  have hst : t.lastDrainStatus≤0 := h2.draining.status
  have h3 : Reports t { t with
      lastDrainStatus := if resultOf r≠0 ∧ t.lastDrainStatus=0 then resultOf r
        else t.lastDrainStatus } := by
    refine ⟨⟨h2.draining.manual,?_⟩,[],(append_nil _).symm,?_⟩
    · split_ifs <;> assumption
    intro hc
    have hneg : t.lastDrainStatus<0 := by
      rcases hc with h0|h0
      · exact h0
      · exact absurd rfl h0
    rw [if_neg (by omega)]
    exact hneg
  refine (h1.trans (h2.trans h3)).trans (bioFinishRecords_reports h3.draining hcb ?_)
  dsimp only
  split_ifs with hc <;> omega

variable (hn : StatusesNonpos env)

include hn

theorem drainLoop_reports (fuel : Nat) : Reports s (drainLoop env callback fuel s).2 := by
  induction fuel generalizing s with
  | zero =>
    simp only [drainLoop]
    split <;> exact hs.silent rfl rfl rfl
  | succ fuel ih =>
    unfold drainLoop
    split
    · exact hs.silent rfl rfl rfl
    next bio rest hq =>
    obtain ⟨n,x,hx⟩ := drainOnce_spec env hq
    have hturn : Reports s (drainOnce env callback bio s).2 := by
      rw [hx.turn callback]
      exact drainBatch_reports hs hcb (hx.first hq).transferred
        ⟨fun s e t h => ((hx.first hq).fails.error s e t h).negative hn⟩
    exact hturn.trans (ih hturn.draining)

omit hs in
theorem bioDrain_reports {fuel : Nat} (hs : s.autoDrain=false) :
    ∃ es,(kbFsSubsystemBioDrain env callback fuel s).2.trace=s.trace++es ∧
      (failedIn es≠[] → (kbFsSubsystemBioDrain env callback fuel s).2.lastDrainStatus<0) := by
  have h := drainLoop_reports (s := { s with lastDrainStatus := 0 }) ⟨hs,le_rfl⟩ hcb hn fuel
  obtain ⟨es,hes,hk⟩ := h.kept
  exact ⟨es,hes,fun h0 => hk (inr h0)⟩

end

section

variable {δ : Type}

/-- `writepages` leaves automatic draining off, and returns an error if the bio has failed before. -/
def WritebackOk (m : WritebackMapping δ) (s : FsState δ) (bio : Nat) : Prop :=
  ∀ writepages,m.writepages=some writepages → (writepages { s with autoDrain := false }).1≤0 ∧
    (writepages { s with autoDrain := false }).2.autoDrain=false ∧
    ((writepages { s with autoDrain := false }).1=0 →
      bio∉failedIn (s.since (writepages { s with autoDrain := false }).2))

theorem writeback_failure_negative {env : Env δ} {callback : Call → FsState δ → FsState δ}
    {fuel : Nat} (hn : StatusesNonpos env) (hcb : ∀ c s,Draining s → Reports s (callback c s))
    {m : WritebackMapping δ} {start stop : Int} {s : FsState δ} {bio : Nat}
    (hok : WritebackOk m s bio)
    (hfail : bio∈failedIn (s.since (filemapWritebackRange env callback fuel m start stop s).2)) :
    (filemapWritebackRange env callback fuel m start stop s).1<0 := by
  have hnone : bio∉failedIn (s.since s) := by simp [since,failedIn]
  unfold filemapWritebackRange at hfail ⊢
  split_ifs at hfail ⊢ with h1 h2
  · exact absurd hfail hnone
  · exact absurd hfail hnone
  cases hw : m.writepages with
  | none =>
    rw [hw] at hfail
    exact absurd hfail hnone
  | some writepages =>
    rw [hw] at hfail
    obtain ⟨hle,hauto,hearly⟩ := hok writepages hw
    dsimp only at hfail ⊢
    split_ifs with hz
    · omega
    obtain ⟨es,hes,hk⟩ := bioDrain_reports hcb hn hauto
    apply hk
    -- the failure is not from before the drain, so the drain has seen it
    have hmem : bio∈failedIn es := by
      have hz0 : (writepages { s with autoDrain := false }).1=0 := by omega
      simp only [since,hes,drop_append,failedIn_append,mem_append] at hfail
      rcases hfail with h0|h0
      · exact absurd h0 (hearly hz0)
      · exact ((drop_sublist _ es).filterMap _).subset h0
    intro he
    rw [he] at hmem
    cases hmem

/-- A bio that fails in `filemap_write_and_wait_range` makes it return an error if no failure is
lost and `writepages` reports its own; `filemap_wait_range` reports none. -/
theorem writeback_errors_reported (env : Env δ) (callback : Call → FsState δ → FsState δ)
    (fuel : Nat) (hn : StatusesNonpos env)
    (hcb : ∀ c s,Draining s → Reports s (callback c s)) :
    (∀ (m : WritebackMapping δ) (start stop : Int) (s : FsState δ) (bio : Nat),
      WritebackOk m s bio →
      bio∈failedIn (s.since
        (kbFsSubsystemFilemapWriteAndWaitRange env callback fuel m start stop s).2) →
      (kbFsSubsystemFilemapWriteAndWaitRange env callback fuel m start stop s).1<0) ∧
    ∀ (start stop : Int) (s : FsState δ), ((∃ bio∈s.queue,bio∈failedIn (s.since
          (kbFsSubsystemFilemapWaitRange env callback fuel start stop s).2)) →
        (kbFsSubsystemFilemapWaitRange env callback fuel start stop s).1<0) ↔
      start<0 ∨ stop<start ∨ ∀ bio∈s.queue,bio∉failedIn (s.since
        (kbFsSubsystemBioDrain env callback fuel s).2) := by
  constructor
  · intro m start stop s bio hok hfail
    exact writeback_failure_negative hn hcb hok hfail
  intro start stop s
  unfold kbFsSubsystemFilemapWaitRange
  by_cases hr : start<0 ∨ stop<start
  · rw [if_pos hr]
    tauto
  rw [if_neg hr]
  constructor
  · intro h
    refine inr (inr fun bio hb hf => ?_)
    exact absurd (h ⟨bio,hb,hf⟩) (lt_irrefl _)
  · rintro (h|h|h) ⟨bio,hb,hf⟩
    · omega
    · omega
    · exact absurd hf (h bio hb)

end

def oneWrite : List Cmd := [.bioAlloc 1 1 opWrite,.bioAddPage 1 8192 512 0,.submitBio 1]

/-- A mapping whose `writepages` makes some calls and returns 0. -/
def sampleMapping (cmds : List Cmd) : WritebackMapping Bytes :=
  ⟨1,true,some fun s => (0,runAll (exec brokenEnv (fun _ s => s) 4) s cmds)⟩

theorem brokenEnv_nonpos : StatusesNonpos brokenEnv := by
  intro _ _
  show eio≤0
  decide

theorem writeback_errors_reported_oneWrite : 1∈failedIn ((bootState sampleDevice).since
      (kbFsSubsystemFilemapWriteAndWaitRange brokenEnv (fun _ s => s) 4 (sampleMapping oneWrite) 0 9
        (bootState sampleDevice)).2) ∧
    (kbFsSubsystemFilemapWriteAndWaitRange brokenEnv (fun _ s => s) 4 (sampleMapping oneWrite) 0 9
      (bootState sampleDevice)).1<0 := by
  have hfail : 1∈failedIn ((bootState sampleDevice).since
      (kbFsSubsystemFilemapWriteAndWaitRange brokenEnv (fun _ s => s) 4 (sampleMapping oneWrite) 0 9
        (bootState sampleDevice)).2) := by decide +kernel
  have hok : WritebackOk (sampleMapping oneWrite) (bootState sampleDevice) 1 := by
    intro writepages hw
    cases hw
    decide +kernel
  exact ⟨hfail,(writeback_errors_reported brokenEnv (fun _ s => s) 4 brokenEnv_nonpos
    fun _ s hs => hs.silent rfl rfl rfl).1 _ 0 9 _ 1 hok hfail⟩

/-- A drain of `writepages` itself loses the failure, `filemap_wait_range` that of a queued bio. -/
theorem writeback_error_lost : (1∈failedIn ((bootState sampleDevice).since
        (kbFsSubsystemFilemapWriteAndWaitRange brokenEnv (fun _ s => s) 4
          (sampleMapping (oneWrite++[.drain])) 0 9 (bootState sampleDevice)).2) ∧
      (kbFsSubsystemFilemapWriteAndWaitRange brokenEnv (fun _ s => s) 4
        (sampleMapping (oneWrite++[.drain])) 0 9 (bootState sampleDevice)).1=0) ∧
    let s := runAll (exec brokenEnv (fun _ s => s) 4) (bootState sampleDevice)
      (.setAutoDrain false::oneWrite)
    1∈s.queue ∧
      1∈failedIn (s.since (kbFsSubsystemFilemapWaitRange brokenEnv (fun _ s => s) 4 0 9 s).2) ∧
      (kbFsSubsystemFilemapWaitRange brokenEnv (fun _ s => s) 4 0 9 s).1=0 := by
  decide +kernel

end Kobox.Fs
