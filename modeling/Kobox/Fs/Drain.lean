import Kobox.Fs.Bio

namespace Kobox.Fs

open List

variable {δ : Type}

/-- The transfer x moves what a queued bio asks for. -/
inductive Carries (env : Env δ) (s : FsState δ) (bio : Nat) : Prog (FsState δ) Int Unit → Prop
  | single : Carries env s bio (bioSubmitNow env bio)
  | reads {d : BlockDevice} {rs : List IoRequest} {r : IoRequest} (hr : r∈rs)
      (hp : bioPrepareReadRequest env s bio=some (d,r)) :
      Carries env s bio (kbFsBlockDeviceReadBatch env d rs)
  | writes {d : BlockDevice} {rs qs : List IoRequest} {capacity : Nat} (hq : ∀ q∈qs,q∈rs)
      (hp : bioAppendWriteRequests env s bio capacity=some (d,qs)) :
      Carries env s bio (kbFsBlockDeviceWriteBatch env d rs)

theorem readRun_device {env : Env δ} {s : FsState δ} {k : Nat} {d : BlockDevice} (queue : List Nat) :
    (readRun env s k (some d) queue).1=some d := by
  induction k generalizing queue with
  | zero => rfl
  | succ k ih =>
    cases queue with
    | nil => rfl
    | cons bio rest =>
      simp only [readRun]
      split
      · rfl
      next e request _ =>
      split
      · rfl
      next hdev =>
      have he : e=d := by
        by_contra hne
        exact hdev ⟨rfl,fun h => hne (Option.some.inj h).symm⟩
      rw [he]
      exact ih rest

variable {d : BlockDevice}

theorem readRun_pairs {env : Env δ} {s : FsState δ} {k : Nat} (device : Option BlockDevice)
    (queue : List Nat) (h : (readRun env s k device queue).1=some d) :
    (readRun env s k device queue).2.length≤k ∧
    Forall₂ (fun bio r => bioPrepareReadRequest env s bio=some (d,r))
      (queue.take (readRun env s k device queue).2.length) (readRun env s k device queue).2 := by
  induction k generalizing device queue with
  | zero => exact ⟨le_rfl,by simp [readRun]⟩
  | succ k ih =>
    cases queue with
    | nil => exact ⟨by simp [readRun],by simp [readRun]⟩
    | cons bio rest =>
      simp only [readRun] at h ⊢
      cases hp : bioPrepareReadRequest env s bio with
      | none => exact ⟨by simp,by simp⟩
      | some p =>
        obtain ⟨e,request⟩ := p
        rw [hp] at h
        dsimp only at h ⊢
        by_cases hdev : device.isSome ∧ device≠some e
        · rw [if_pos hdev]
          exact ⟨by simp,by simp⟩
        rw [if_neg hdev] at h ⊢
        obtain ⟨hlen,hpairs⟩ := ih (some e) rest h
        have he : some e=some d := (readRun_device rest).symm.trans h
        cases he
        refine ⟨by simpa using hlen,?_⟩
        exact Forall₂.cons hp hpairs

variable {s : FsState δ} {env : Env δ}

theorem vectorRequests_length {offset stop : Nat} {vs : List BioVec} {requests : List IoRequest}
    (h : vectorRequests env s offset vs=.ok (requests,stop)) : requests.length=vs.length := by
  induction vs generalizing offset requests with
  | nil =>
    cases h
    rfl
  | cons v vs ih =>
    simp only [vectorRequests] at h
    split_ifs at h
    cases hr : vectorRequests env s (offset+v.length) vs with
    | error e =>
      rw [hr] at h
      cases h
    | ok p =>
      rw [hr] at h
      cases h
      simp [ih hr]

theorem vectorRequests_one {offset stop : Nat} {v : BioVec} {requests : List IoRequest}
    (h : vectorRequests env s offset [v]=.ok (requests,stop)) :
    offset+v.length<wordSize ∧ requests=[⟨offset,v.buffer env s,v.length⟩] := by
  simp only [vectorRequests] at h
  split_ifs at h with h1 h2
  cases h
  exact ⟨by omega,rfl⟩

variable {bio : Nat}

theorem writeRequests_some {capacity : Nat} {g : List IoRequest}
    (h : bioAppendWriteRequests env s bio capacity=some (d,g)) :
    ((s.bios bio).bio.op=opWrite ∧ (s.bios bio).bio.hasPreflush=false ∧
      (s.bios bio).bio.hasFua=false ∧ (s.bios bio).bio.vectors≠[] ∧ (s.bios bio).bio.size≠0 ∧
      (s.bios bio).bio.vectors.length ≤ capacity) ∧
    blockDeviceForBdev s (s.bios bio).bio.bdev=some d ∧ (s.bios bio).bio.sector*512 < wordSize ∧
    ∃ stop,vectorRequests env s ((s.bios bio).bio.sector*512) (s.bios bio).bio.vectors=.ok (g,stop) := by
  simp only [bioAppendWriteRequests] at h
  split at h
  · cases h
  next hc =>
  simp only [not_or,not_not,not_lt,Bool.not_eq_true] at hc
  split at h
  · cases h
  next e he =>
  split at h
  · cases h
  split at h
  · cases h
  next requests stop hr =>
  split at h
  · cases h
  · cases h
    exact ⟨hc,he,by omega,stop,hr⟩

theorem writeRun_device {env : Env δ} {s : FsState δ} (capacity : Nat) {d : BlockDevice}
    {queue : List Nat} : (writeRun env s capacity (some d) queue).1=some d := by
  induction queue generalizing capacity with
  | nil => rfl
  | cons bio rest ih =>
    simp only [writeRun]
    split
    · rfl
    split
    · rfl
    next e requests _ =>
    split
    · rfl
    next hdev =>
    have he : e=d := by
      by_contra hne
      exact hdev ⟨rfl,fun h => hne (Option.some.inj h).symm⟩
    rw [he]
    exact ih _

theorem writeRun_groups {env : Env δ} {s : FsState δ} (capacity : Nat) (device : Option BlockDevice)
    {queue : List Nat} (h : (writeRun env s capacity device queue).1=some d) :
    (writeRun env s capacity device queue).2.2.length ≤ capacity ∧
    ∃ gs,(writeRun env s capacity device queue).2.2=gs.flatten ∧
      (writeRun env s capacity device queue).2.1=gs.length ∧
      Forall₂ (fun bio g => ∃ k ≤ capacity,bioAppendWriteRequests env s bio k=some (d,g))
        (queue.take (writeRun env s capacity device queue).2.1) gs := by
  induction queue generalizing capacity device with
  | nil => exact ⟨by simp [writeRun],[],rfl,rfl,by simp⟩
  | cons bio rest ih =>
    simp only [writeRun] at h ⊢
    by_cases hcap : capacity=0
    · rw [if_pos hcap]
      exact ⟨by simp,[],rfl,rfl,by simp⟩
    rw [if_neg hcap] at h ⊢
    cases hp : bioAppendWriteRequests env s bio capacity with
    | none => exact ⟨by simp,[],rfl,rfl,by simp⟩
    | some p =>
      obtain ⟨e,requests⟩ := p
      rw [hp] at h
      dsimp only at h ⊢
      by_cases hdev : device.isSome ∧ device≠some e
      · rw [if_pos hdev]
        exact ⟨by simp,[],rfl,rfl,by simp⟩
      rw [if_neg hdev] at h ⊢
      obtain ⟨hlen,gs,hgs,hcount,hgroups⟩ := ih (capacity-requests.length) (some e) h
      have he : some e=some d := (writeRun_device _).symm.trans h
      cases he
      obtain ⟨hbio,-,-,stop,hstop⟩ := writeRequests_some hp
      have hvs := vectorRequests_length hstop
      refine ⟨by rw [length_append]; omega,requests::gs,by rw [hgs]; rfl, by rw [hcount]; rfl,?_⟩
      refine Forall₂.cons ⟨capacity,le_rfl,hp⟩ (hgroups.imp ?_)
      rintro b g ⟨k,hk,hg⟩
      exact ⟨k,by omega,hg⟩

theorem drainOnce_cases (env : Env δ) (s : FsState δ) (bio : Nat) :
    let reads := readRun env s batchMax none s.queue
    let writes := writeRun env s batchMax none s.queue
    (∃ d,reads.1=some d ∧ 2 ≤ reads.2.length ∧
      ∀ callback,drainOnce env callback bio s=(reads.2.length,
        drainBatch callback reads.2.length (kbFsBlockDeviceReadBatch env d reads.2) s)) ∨
    (∃ d,writes.1=some d ∧ 2≤writes.2.2.length ∧
      ∀ callback,drainOnce env callback bio s=(writes.2.1,
        drainBatch callback writes.2.1 (kbFsBlockDeviceWriteBatch env d writes.2.2) s)) ∨
    ∀ callback,drainOnce env callback bio s=(1,drainBatch callback 1 (bioSubmitNow env bio) s) := by
  unfold drainOnce
  generalize readRun env s batchMax none s.queue=reads
  generalize writeRun env s batchMax none s.queue=writes
  dsimp only
  by_cases hreads : ∃ d,reads.1=some d ∧ 2 ≤ reads.2.length
  · obtain ⟨d,hd,hlen⟩ := hreads
    refine Or.inl ⟨d,hd,hlen,fun callback => ?_⟩
    simp [hd,hlen]
  -- without two reads at the head of the queue it depends on the writes there
  have hr : ∀ d,reads.1=some d → ¬2 ≤ reads.2.length := fun d hd hlen => hreads ⟨d,hd,hlen⟩
  right
  cases he : writes.1 with
  | none =>
    refine Or.inr fun callback => ?_
    cases hd : reads.1 with
    | none => rfl
    | some d => exact if_neg (hr d hd)
  | some e =>
    by_cases hw : 2≤writes.2.2.length
    · refine Or.inl ⟨e,rfl,hw,fun callback => ?_⟩
      cases hd : reads.1 with
      | none => exact if_pos hw
      | some d => simp [hr d hd,hw]
    · refine Or.inr fun callback => ?_
      cases hd : reads.1 with
      | none => exact if_neg hw
      | some d => simp [hr d hd,hw]

/-- Whatever the callbacks, a turn takes the first record and maybe more, and runs one transfer. -/
structure DrainTurn (env : Env δ) (s : FsState δ) (bio n : Nat)
    (x : Prog (FsState δ) Int Unit) : Prop where
  turn : ∀ callback,drainOnce env callback bio s=(n,drainBatch callback n x s)
  some : 1≤n
  most : n ≤ s.queue.length
  carries : ∀ b∈s.queue.take n,Carries env s b x

theorem DrainTurn.first {n : Nat} {rest : List Nat} {x : Prog (FsState δ) Int Unit}
    (h : DrainTurn env s bio n x) (hq : s.queue=bio::rest) : Carries env s bio x := by
  apply h.carries
  obtain ⟨k,rfl⟩ : ∃ k,n=k+1 := ⟨n-1,by have := h.some; omega⟩
  simp [hq]

theorem forall₂_mem {α : Type} {R : Nat → α → Prop} {bios : List Nat} {as : List α}
    (h : Forall₂ R bios as) : ∀ bio∈bios,∃ a∈as,R bio a := by
  intro bio hbio
  obtain ⟨i,hi,rfl⟩ := getElem_of_mem hbio
  exact ⟨_,getElem_mem (h.length_eq ▸ hi),h.get hi _⟩

theorem drainOnce_spec (env : Env δ) {rest : List Nat} (hq : s.queue=bio::rest) :
    ∃ n x,DrainTurn env s bio n x := by
  rcases drainOnce_cases env s bio with ⟨d,hd,hlen,h⟩|⟨d,hd,hlen,h⟩|h
  · obtain ⟨-,hpairs⟩ := readRun_pairs none s.queue hd
    have hmost := hpairs.length_eq
    rw [length_take] at hmost
    refine ⟨_,_,h,by omega,by omega,?_⟩
    intro b hb
    obtain ⟨r,hr,hp⟩ := forall₂_mem hpairs b hb
    exact Carries.reads hr hp
  · obtain ⟨-,gs,hgs,hcount,hgroups⟩ := writeRun_groups batchMax none hd
    have hmost := hgroups.length_eq
    rw [length_take] at hmost
    have hsome : gs≠[] := by
      rintro rfl
      rw [hgs] at hlen
      simp at hlen
    have hpos := length_pos_iff.mpr hsome
    refine ⟨_,_,h,by omega,by omega,?_⟩
    intro b hb
    obtain ⟨g,hg,k,-,hp⟩ := forall₂_mem hgroups b hb
    rw [hgs]
    exact Carries.writes (fun q hq => mem_flatten.mpr ⟨g,hg,hq⟩) hp
  · refine ⟨1,_,h,le_rfl,by simp [hq],?_⟩
    intro b hb
    rw [hq] at hb
    have he : b=bio := by simpa using hb
    exact he ▸ Carries.single

end Kobox.Fs
