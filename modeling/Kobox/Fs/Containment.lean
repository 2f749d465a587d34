import Kobox.Fs.LayerMoves

namespace Kobox.Fs

open List Prog Emits FsState Grows

def Request.Touches : Request → Nat → Prop
  | .read sector bytes,k => sector≤k ∧ k<sector+(bytes+511)/512
  | .readBatch parts,k => ∃ p∈parts,p.1≤k ∧ k<p.1+(p.2+511)/512
  | .write sector data,k => sector≤k ∧ k<sector+(data.length+511)/512
  | .writeBatch parts,k => ∃ p∈parts,p.1≤k ∧ k<p.1+(p.2.length+511)/512
  | .writeFlags sector data _,k => sector≤k ∧ k<sector+(data.length+511)/512
  | .flush,_ => False

variable {d : BlockDevice}

theorem within_touch {sector n k : Nat} (h : Within d sector n)
    (hk : sector≤k ∧ k<sector+(n+511)/512) : d.startSector≤k ∧ k<d.startSector+d.sectorCount := by
  rcases h with h|h
  · omega
  · omega

theorem inside_touch {r : Request} {k : Nat} (h : Inside d r) (hk : r.Touches k) :
    d.startSector≤k ∧ k<d.startSector+d.sectorCount := by
  cases r with
  | read sector bytes => exact within_touch h hk
  | readBatch parts =>
    obtain ⟨p,hp,hk⟩ := hk
    exact within_touch (h p hp) hk
  | write sector data => exact within_touch h hk
  | writeBatch parts =>
    obtain ⟨p,hp,hk⟩ := hk
    exact within_touch (h p hp) hk
  | writeFlags sector data flags => exact within_touch h hk
  | flush => cases hk

def Event.started : Event → Option (BlockDevice × Bio)
  | .bio d b => some (d,b)
  | _ => none

def Event.request : Event → Option (BlockDevice × Request)
  | .disk d r _ _ => some (d,r)
  | _ => none

/-- A single-vector write with forced unit access, of whole sectors, lies in the device. -/
def FuaInside (d : BlockDevice) (b : Bio) : Prop :=
  ∀ v∈b.vectors,b.needsFua=true → b.vectors.length=1 → v.length%512=0 →
    b.sector*512+v.length≤d.sizeBytes

instance (d : BlockDevice) (b : Bio) : Decidable (FuaInside d b) :=
  inferInstanceAs (Decidable (∀ v∈b.vectors,_))

/-- Events in which the device keeps to its sectors, provided the bios do. -/
def Contained (d : BlockDevice) (es : List Event) : Prop :=
  (∀ p∈es.filterMap Event.started,p.1=d → FuaInside d p.2) →
    ∀ r,(d,r)∈es.filterMap Event.request → Inside d r

theorem contained_nil (d : BlockDevice) : Contained d [] := by
  intro _ r hr
  simp at hr

theorem contained_append (us ws : List Event) (hu : Contained d us) (hw : Contained d ws) :
    Contained d (us++ws) := by
  intro hb r hr
  rw [filterMap_append] at hb hr
  rcases mem_append.mp hr with hr|hr
  · exact hu (fun p h => hb p (mem_append_left _ h)) r hr
  · exact hw (fun p h => hb p (mem_append_right _ h)) r hr

def KeepsTo (d : BlockDevice) (e : Event) : Prop := ∀ r,e.request=some (d,r) → Inside d r

theorem contained_of_keeps (es : List Event) (h : ∀ e∈es,KeepsTo d e) : Contained d es := by
  intro _ r hr
  obtain ⟨e,he,hreq⟩ := mem_filterMap.mp hr
  exact h e he r hreq

section

variable {δ : Type} {env : Env δ}

theorem keeps_rules (env : Env δ) (d : BlockDevice) :
    DeviceRules env (fun e r => e=d → Inside e r) (Moves (Emits FsState.trace (KeepsTo d))) :=
  DeviceClosed.rules {
  refl := refl
  trans := trans
  inside := fun _ _ h _ => h
  ask := by
    intro e r s h
    apply one rfl
    intro q hq
    cases hq
    exact h rfl
  mem := fun _ _ => silent rfl
  alloc := fun _ => silent rfl
  status := fun _ _ _ => silent rfl }

theorem fuaInside_ok {d e : BlockDevice} {b : Bio} (h : e=d → FuaInside d b) :
    FuaOk (fun e r => e=d → Inside e r) e b := by
  intro hf h1 data hn hl flags he
  subst he
  obtain ⟨v,hv⟩ := length_eq_one_iff.mp h1
  have hmem : v∈b.vectors := by rw [hv]; exact mem_singleton.mpr rfl
  have hlen := hl v hmem
  have hle := h rfl v hmem hf h1 (hlen ▸ hn)
  have hw : Within e (e.startSector+b.sector*512/512) data.length :=
    within_aligned (by omega) hn (by rw [hlen]; exact hle)
  rwa [Nat.mul_div_cancel _ (by decide)] at hw

theorem bioSubmitNow_contained (env : Env δ) (d : BlockDevice) (bio : Nat) :
    Moves (Grows FsState.trace (Contained d)) (bioSubmitNow env bio) := by
  apply Moves.get_bind
  intro s
  cases hdev : blockDeviceForBdev s (s.bios bio).bio.bdev with
  | none => exact silent (contained_nil d) rfl
  | some e =>
    change Grows _ _ s (submitOn env e bio (s.bios bio).bio (s.note (.bio e (s.bios bio).bio))).2
    by_cases hfua : e=d → FuaInside d (s.bios bio).bio
    · have hmoves := submitOn_rule (keeps_rules env d) (fuaInside_ok hfua) bio
        (s.note (.bio e (s.bios bio).bio))
      have hnote : Emits trace (KeepsTo d) s (s.note (.bio e (s.bios bio).bio)) := by
        apply one rfl
        intro r hr
        cases hr
      exact of_emits contained_of_keeps (trans _ _ _ hnote hmoves)
    · obtain ⟨he,hout⟩ := Classical.not_imp.mp hfua
      subst he
      obtain ⟨es,hes,_⟩ := (submitOn_rule (transferred_rules) (d := e) (b := (s.bios bio).bio)
        (fun _ _ _ _ _ _ => trivial) bio (s.note (.bio e (s.bios bio).bio))).emits
      refine ⟨.bio e (s.bios bio).bio::es,?_,?_⟩
      · rw [hes]
        simp [note]
      · intro hb
        exact absurd (hb _ mem_cons_self rfl) hout

theorem contained_transferClosed (env : Env δ) (d : BlockDevice) :
    TransferClosed env (Grows FsState.trace (Contained d)) := by
  have hK := keeps_rules env d
  have hdev : ∀ {α : Type} {x : Prog (FsState δ) Int α},
      Moves (Emits trace (KeepsTo d)) x →
        Moves (Grows trace (Contained d)) x := fun hx =>
    hx.mono fun _ _ h => of_emits contained_of_keeps h
  have hnote : ∀ (s : FsState δ) (e : Event),¬e.OfTransfer →
      Grows trace (Contained d) s (s.note e) := by
    intro s e he
    have hone : Emits trace (KeepsTo d) s (s.note e) := by
      apply one rfl
      intro r hr
      cases e with
      | disk => exact absurd trivial he
      | _ => cases hr
    exact of_emits contained_of_keeps hone
  exact {
    trans := trans contained_append _ _ _
    quiet := fun h => silent (contained_nil d) h
    note := hnote
    submitNow := bioSubmitNow_contained env d
    read := fun e offset buffer size => hdev (deviceRead_rule hK e offset buffer)
    readBatch := fun e requests => hdev (deviceReadBatch_rule hK e requests)
    write := fun e offset buffer size => hdev (deviceWrite_rule hK e offset buffer)
    writeBatch := fun e requests => hdev (deviceWriteBatch_rule hK e requests)
    flush := fun bdev => hdev (issueFlush_rule hK)
    zeroout := fun bdev sector count noFallback =>
      hdev (issueZeroout_rule hK) }

/-- A run of module calls whose callbacks are module calls too. -/
def moduleRun (env : Env δ) (calls : FsState δ → Call → List Cmd) (depth fuel : Nat)
    (s : FsState δ) (cmds : List Cmd) : FsState δ :=
  runAll (exec env (moduleCallback env fuel calls depth) fuel) s cmds

theorem createFromDiskRange_ok {id disk startSector sectorCount : Nat}
    {snapshot : Except Int DiskSnapshot} {allocated : Bool}
    (h : createFromDiskRange id disk snapshot startSector sectorCount allocated=.ok d) :
    d.startSector=startSector ∧ d.sectorCount=sectorCount := by
  unfold createFromDiskRange at h
  cases snapshot with
  | error e => cases h
  | ok snap =>
    dsimp only at h
    split_ifs at h
    cases h
    exact ⟨rfl,rfl⟩

/-- A device on a range keeps to it if its single-vector writes with forced unit access do. -/
theorem partition_contained (env : Env δ) (calls : FsState δ → Call → List Cmd) (depth fuel : Nat)
    {s : FsState δ} (hs : s.trace=[]) (cmds : List Cmd) {id disk startSector sectorCount : Nat}
    {snapshot : Except Int DiskSnapshot} {allocated : Bool}
    (hd : createFromDiskRange id disk snapshot startSector sectorCount allocated=.ok d)
    (hfua : ∀ p∈(moduleRun env calls depth fuel s cmds).trace.filterMap Event.started, p.1=d →
      FuaInside d p.2) :
    ∀ r,(d,r)∈(moduleRun env calls depth fuel s cmds).trace.filterMap Event.request →
      ∀ k,r.Touches k → startSector≤k ∧ k<startSector+sectorCount := by
  have hclosed := moduleCallback_closed fuel (contained_transferClosed env d) calls depth
  obtain ⟨es,hes,hin⟩ := runExec_moves hclosed fuel s
  have htrace : (moduleRun env calls depth fuel s cmds).trace=es := by
    rw [moduleRun,hes,hs,nil_append]
  intro r hr k hk
  rw [htrace] at hfua hr
  have h := inside_touch (hin hfua r hr) hk
  rw [(createFromDiskRange_ok hd).1,(createFromDiskRange_ok hd).2] at h
  exact h

end

def fuaWrite (sector : Nat) : List Cmd :=
  [.bioAlloc 1 1 (opWrite+2^17),.bioAddPage 1 8192 512 0,
    .setBio 1 ⟨1,opWrite+2^17,sector,512,0,[⟨8192,512,0⟩],1,.none,0⟩,.submitBio 1]

theorem partition_contained_lastSector :
    createFromDiskRange 1 7 (.ok ⟨1000,some 512,by decide⟩) 100 8 true=.ok sampleDevice ∧
    ∀ r,(sampleDevice,r)∈(moduleRun sampleEnv (fun _ _ => []) 1 4 (bootState sampleDevice)
      (fuaWrite 7)).trace.filterMap Event.request →
      ∀ k,r.Touches k → 100≤k ∧ k<100+8 :=
  have hd : createFromDiskRange 1 7 (.ok ⟨1000,some 512,by decide⟩) 100 8 true=.ok sampleDevice :=
    rfl
  ⟨hd,partition_contained sampleEnv (fun _ _ => []) 1 4 rfl (fuaWrite 7) hd (by decide +kernel)⟩

/-- The write one sector further goes to the disk behind the device. -/
theorem fua_write_escapes :
    createFromDiskRange 1 7 (.ok ⟨1000,some 512,by decide⟩) 100 8 true=.ok sampleDevice ∧
    ∃ r,(sampleDevice,r)∈(moduleRun sampleEnv (fun _ _ => []) 1 4 (bootState sampleDevice)
      (fuaWrite 8)).trace.filterMap Event.request ∧ r.Touches 108 := by
  refine ⟨rfl,.writeFlags 108 (replicate 512 0) 1,?_,?_⟩
  · decide +kernel
  · exact ⟨by decide,by decide +kernel⟩

end Kobox.Fs
