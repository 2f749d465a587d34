import Kobox.Fs.BufferUser
import Kobox.Fs.Stored
import Kobox.Fs.Turns
import Kobox.Fs.Writeback

namespace Kobox.Fs

open List Function Bool

def markedIn (es : List Event) : List Nat := es.filterMap fun
  | .marked head => some head
  | _ => none

theorem mem_markedIn {es : List Event} {head : Nat} : head∈markedIn es ↔ .marked head∈es := by
  unfold markedIn
  rw [mem_filterMap]
  constructor
  · rintro ⟨e,he,hh⟩
    cases e <;> cases hh
    exact he
  · exact fun h => ⟨_,h,rfl⟩

section

variable {δ : Type} {env : Env δ} {callback : Call → FsState δ → FsState δ} {s t u : FsState δ}
  {head h bio : Nat}

def IsDirty (s : FsState δ) (head : Nat) : Prop := (s.heads head).flags.dirty=true ∧
    ∀ i,bufferCacheRecordForHead s head=some i → (s.cache i).dirty=true

/-- A buffer of the block cache: it has a record, and no file's folio. -/
structure Cached (s : FsState δ) (head : Nat) : Prop where
  record : bufferCacheRecordForHead s head≠none
  block : s.fileFolio (s.heads head).folio=false

/-- The end of the bio ends the I/O of the buffer. -/
def EndsHead (s : FsState δ) (head bio : Nat) : Prop :=
  (s.bios bio).bio.endIo=.bufferHead ∧ (s.bios bio).bio.privateData=head

instance (s : FsState δ) (head bio : Nat) : Decidable (EndsHead s head bio) :=
  inferInstanceAs (Decidable (_ ∧ _))

/-- Completion callbacks that start no I/O of the buffer and do not clean it; only the ends of
the bios in `markers` mark it. -/
structure Spares (callback : Call → FsState δ → FsState δ) (head : Nat) (markers : Nat → Prop) :
    Prop where
  cached : ∀ c s,Cached s head → Cached (callback c s) head
  ends : ∀ c s bio,EndsHead (callback c s) head bio → EndsHead s head bio
  queue : ∀ c s,∃ more,(callback c s).queue.Sublist (s.queue++more) ∧
    ∀ bio∈more,¬EndsHead s head bio
  dirty : ∀ c s,Cached s head → IsDirty s head → IsDirty (callback c s) head
  marks : ∀ c s,Cached s head → ∃ new,(callback c s).trace=s.trace++new ∧
    (.marked head∈new → IsDirty (callback c s) head ∧ ∃ f bio,c=.bio f bio ∧ markers bio)

/-- Where a drain from `s` stands with the bios of `todo` to complete: none of them ends I/O of
the buffer behind a marker, and once it is marked it is dirty and none ends its I/O at all. -/
structure Standing (s : FsState δ) (head : Nat) (markers : Nat → Prop) (todo : List Nat)
    (t : FsState δ) : Prop where
  cached : Cached t head
  order : todo.Pairwise fun a b => markers a → ¬EndsHead t head b
  marked : ∃ new,t.trace=s.trace++new ∧
    (.marked head∈new → IsDirty t head ∧ ∀ bio∈todo,¬EndsHead t head bio)

/-- A step that marks nothing, and cleans the buffer only at the end of its own I/O. -/
structure Passes (head : Nat) (own : Prop) (s t : FsState δ) : Prop where
  cached : Cached s head → Cached t head
  ends : ∀ bio,EndsHead t head bio → EndsHead s head bio
  dirty : ¬own → IsDirty s head → IsDirty t head
  trace : ∃ new,t.trace=s.trace++new ∧ .marked head∉new

theorem Passes.trans {own : Prop} (h : Passes head own s t) (k : Passes head own t u) :
    Passes head own s u := by
  obtain ⟨a,ha,hna⟩ := h.trace
  obtain ⟨b,hb,hnb⟩ := k.trace
  refine ⟨fun hc => k.cached (h.cached hc),fun bio he => h.ends bio (k.ends bio he),
    fun ho hd => k.dirty ho (h.dirty ho hd),a++b,by rw [hb,ha,append_assoc],?_⟩
  rw [mem_append]
  exact fun hm => hm.elim hna hnb

theorem Passes.of_buffers {own : Prop} (new : List Event) (hh : t.heads=s.heads)
    (hc : t.cache=s.cache) (hf : t.fileFolio=s.fileFolio)
    (hb : ∀ bio,∃ status,(t.bios bio).bio={ (s.bios bio).bio with status := status })
    (ht : t.trace=s.trace++new) (hn : .marked head∉new) : Passes head own s t := by
  refine ⟨fun hs => ⟨?_,?_⟩,fun bio he => ?_,fun _ hd => ?_,new,ht,hn⟩
  · rw [recordForHead_congr hc]
    exact hs.record
  · rw [hf,hh]
    exact hs.block
  · obtain ⟨status,hst⟩ := hb bio
    unfold EndsHead at he
    rw [hst] at he
    exact he
  · unfold IsDirty
    rw [hh,hc,recordForHead_congr hc]
    exact hd

theorem Passes.silent {own : Prop} (hh : t.heads=s.heads) (hc : t.cache=s.cache)
    (hf : t.fileFolio=s.fileFolio)
    (hb : ∀ bio,∃ status,(t.bios bio).bio={ (s.bios bio).bio with status := status })
    (ht : t.trace=s.trace) : Passes head own s t :=
  .of_buffers [] hh hc hf hb (by rw [ht,append_nil]) nofun

theorem Passes.onBio {own : Prop} (bio : Nat) {f : BioRecord → BioRecord}
    (hf : ∃ status,(f (s.bios bio)).bio={ (s.bios bio).bio with status := status }) :
    Passes head own s (s.onBio bio f) :=
  .silent rfl rfl rfl (steady_onBio bio hf).bios rfl

theorem Passes.note {own : Prop} {e : Event} (he : e≠.marked head) :
    Passes head own s (s.note e) :=
  .of_buffers [e] rfl rfl rfl (fun _ => ⟨_,rfl⟩) rfl (by simpa using he.symm)

theorem Passes.transferred {own : Prop} (h : Transferred s t) : Passes head own s t := by
  obtain ⟨es,hes,he⟩ := h.emits
  have hrest := h.rest
  refine .of_buffers es (by rw [hrest]) (by rw [hrest]) (by rw [hrest])
    (Steady.of_transferred h).bios hes fun hm => ?_
  exact he _ hm

theorem Passes.pops {own : Prop} {n : Nat} : Passes head own s (bioQueuePops n s) := by
  have hsame := bioQueuePops_same n s
  exact .silent hsame.heads hsame.cache (bioQueuePops_settings s).fileFolio
    (fun bio => ⟨_,by rw [bioQueuePops_bio]⟩) hsame.trace

theorem Passes.put {own : Prop} : Passes head own s (bioPut bio s) := by
  have hsame : SameBuffers s (bioPut bio s) := bioPut_same
  refine .silent hsame.heads hsame.cache ?_ bioPut_steady.bios hsame.trace
  simp only [bioPut,bioQueueRemove]
  split_ifs <;> rfl

theorem setDirty_records {s : FsState δ} {head : Nat} {dirty : Bool} {h : Nat} :
    bufferCacheRecordForHead (bufferCacheSetDirty (bufferCacheRecordForHead s head) dirty s) h=
      bufferCacheRecordForHead s h ∧ ∀ i,bufferCacheRecordForHead s h=some i →
      (bufferCacheSetDirty (bufferCacheRecordForHead s head) dirty s).cache i=
        if h=head then {s.cache i with dirty := dirty} else s.cache i := by
  cases hs : bufferCacheRecordForHead s head with
  | none =>
    refine ⟨rfl,fun i hi => ?_⟩
    rw [if_neg (by rintro rfl; simp [hs] at hi)]
    rfl
  | some j =>
    have hj := find?_some hs
    simp only [and_eq_true,beq_iff_eq] at hj
    have hc := setDirty_cache (s := s) dirty hj.1
    constructor
    · unfold bufferCacheRecordForHead
      rw [hc]
      refine congrArg (fun q => (range bufferCacheMax).find? q) (funext fun i => ?_)
      by_cases hi : i=j <;> simp [hi]
    · intro i hi
      have hhead := find?_some hi
      simp only [and_eq_true,beq_iff_eq] at hhead
      by_cases hh : h=head
      · subst hh
        obtain rfl : j=i := Option.some.inj (hs.symm.trans hi)
        rw [hc,update_self,if_pos rfl]
      · rw [hc,if_neg hh,update_of_ne]
        rintro rfl
        exact hh (hhead.2.symm.trans hj.2)

theorem Passes.onHead {own : Prop} {f : BufferHead → BufferHead}
    (hf : (f (s.heads h)).folio=(s.heads h).folio)
    (hd : h=head → ¬own → (f (s.heads h)).flags.dirty=(s.heads h).flags.dirty) :
    Passes head own s (s.onHead h f) := by
  have hrec : ∀ x,bufferCacheRecordForHead (s.onHead h f) x=bufferCacheRecordForHead s x :=
    fun _ => recordForHead_congr rfl
  refine ⟨fun hs => ⟨?_,?_⟩,fun _ he => he,fun ho hs => ⟨?_,fun i hi => ?_⟩,[],
    (append_nil _).symm,nofun⟩
  · rw [hrec]
    exact hs.record
  · by_cases hx : head=h
    · subst hx
      simpa [FsState.onHead,hf] using hs.block
    · simpa [FsState.onHead,hx] using hs.block
  · by_cases hx : head=h
    · subst hx
      simpa [FsState.onHead,hd rfl ho] using hs.1
    · simpa [FsState.onHead,hx] using hs.1
  · rw [hrec] at hi
    exact hs.2 i hi

theorem setDirty_fileFolio {slot : Option Nat} {dirty : Bool} :
    (bufferCacheSetDirty slot dirty s).fileFolio=s.fileFolio := by
  rw [setDirty_eq]

theorem setDirty_bios {slot : Option Nat} {dirty : Bool} :
    (bufferCacheSetDirty slot dirty s).bios=s.bios := by
  rw [setDirty_eq]

theorem Passes.clean : Passes head (h=head) s
    (bufferCacheSetDirty (bufferCacheRecordForHead s h) false s) := by
  obtain ⟨hrec,hcache⟩ := setDirty_records
  refine ⟨fun hs => ⟨?_,?_⟩,fun bio he => ?_,fun ho hs => ⟨?_,fun i hi => ?_⟩,[],
    by rw [setDirty_trace,append_nil],nofun⟩
  · rw [hrec]
    exact hs.record
  · rw [setDirty_fileFolio,setDirty_heads]
    exact hs.block
  · unfold EndsHead at he
    rwa [setDirty_bios] at he
  · rw [setDirty_heads]
    exact hs.1
  · rw [hrec] at hi
    rw [hcache i hi,if_neg (Ne.symm ho)]
    exact hs.2 i hi

theorem Passes.writeEnd {success : Bool} :
    Passes head (h=head) s (endBufferWriteSync h success s) := by
  have h1 : Passes head (h=head) s (s.onHead h fun x => { x with
      flags := { x.flags with
        uptodate := success
        dirty := if success then false else x.flags.dirty
        writeEio := !success
        lock := false
        req := false } }) := .onHead rfl fun he ho => absurd he ho
  have h2 := h1.trans (.note (e := .wrote h success) nofun)
  unfold endBufferWriteSync
  extract_lets t u
  have hu : Passes head (h=head) s u := by
    cases success with
    | false => exact h2
    | true =>
      have he : u=bufferCacheSetDirty (bufferCacheRecordForHead t h) false t := if_pos rfl
      rw [he]
      exact h2.trans .clean
  clear_value u
  exact hu.trans (.onHead rfl fun he ho => absurd he ho)

variable {markers : Nat → Prop} {todo rest : List Nat}

theorem Standing.pass (hs : Standing s head markers todo t) {own : Prop}
    (hown : own → ∃ bio∈todo,EndsHead t head bio) (hp : Passes head own t u) {more : List Nat}
    (hm : more.Sublist todo) : Standing s head markers more u := by
  obtain ⟨a,ha,hmark⟩ := hs.marked
  obtain ⟨b,hb,hnb⟩ := hp.trace
  have horder := (hs.order.sublist hm).imp fun hx hma he => hx hma (hp.ends _ he)
  refine ⟨hp.cached hs.cached,horder,a++b,by rw [hb,ha,append_assoc],fun hin => ?_⟩
  obtain ⟨hd,hno⟩ := hmark ((mem_append.mp hin).resolve_right hnb)
  refine ⟨hp.dirty ?_ hd,fun bio hbio he => hno bio (hm.subset hbio) (hp.ends bio he)⟩
  intro ho
  obtain ⟨bio,hbio,he⟩ := hown ho
  exact hno bio hbio he

theorem Standing.call (hcb : Spares callback head markers) {c : Call}
    (hs : Standing s head markers (bio::rest++t.queue) t) (hc : ∀ f b,c=.bio f b → b=bio) :
    Standing s head markers (rest++(callback c t).queue) (callback c t) := by
  obtain ⟨more,hsub,hmore⟩ := hcb.queue c t
  obtain ⟨a,ha,hold⟩ := hs.marked
  obtain ⟨b,hb,hnew⟩ := hcb.marks c t hs.cached
  obtain ⟨hfirst,horder⟩ := pairwise_cons.mp hs.order
  have hends := hcb.ends c t
  have hall : (rest++(callback c t).queue).Sublist (rest++t.queue++more) := by
    rw [append_assoc]
    exact (Sublist.refl rest).append hsub
  -- what follows for the bios to come if none of those known so far ends I/O of the buffer
  have hnone : (∀ b∈rest++t.queue,¬EndsHead t head b) →
      ∀ b∈rest++(callback c t).queue,¬EndsHead (callback c t) head b := by
    intro hno x hx he
    rcases mem_append.mp (hall.subset hx) with hx|hx
    · exact hno x hx (hends x he)
    · exact hmore x hx (hends x he)
  refine ⟨hcb.cached c t hs.cached,?_,a++b,by rw [hb,ha,append_assoc],fun hin => ?_⟩
  · refine Pairwise.sublist hall ?_
    refine (pairwise_append.mpr ⟨horder,?_,fun x _ y hy _ => hmore y hy⟩).imp
      fun hx hma he => hx hma (hends _ he)
    exact pairwise_of_forall_mem_list fun _ _ y hy _ => hmore y hy
  by_cases hmk : .marked head∈b
  · obtain ⟨hd,f,x,hx,hmarker⟩ := hnew hmk
    have heq := hc f x hx
    subst heq
    exact ⟨hd,hnone fun y hy => hfirst y hy hmarker⟩
  · obtain ⟨hd,hno⟩ := hold ((mem_append.mp hin).resolve_right hmk)
    exact ⟨hcb.dirty c t hs.cached hd,hnone fun y hy => hno y (mem_cons_of_mem _ hy)⟩

theorem headComplete_standing (hcb : Spares callback head markers) {success : Bool}
    (he : EndsHead t h bio) (hs : Standing s head markers (bio::rest++t.queue) t) :
    Standing s head markers (rest++(bufferHeadComplete callback h success t).queue)
      (bufferHeadComplete callback h success t) := by
  have htail : (rest++t.queue).Sublist (bio::rest++t.queue) := sublist_cons_self _ _
  apply headComplete_rule (P := fun u => Standing s head markers (rest++u.queue) u)
  · have hread : Passes head False t (endBufferReadSync h success t) := by
      unfold endBufferReadSync
      refine Passes.trans (.onHead ?_ fun _ _ => ?_) (.note nofun)
      · rfl
      · rfl
    exact hs.pass False.elim hread htail
  · intro _
    have hq : (endBufferWriteSync h success t).queue=t.queue := by
      unfold endBufferWriteSync
      dsimp only [FsState.onHead]
      split
      · exact setDirty_queue
      · rfl
    rw [hq]
    exact hs.pass (fun heq : h=head => ⟨bio,by simp,heq ▸ he⟩) .writeEnd htail
  · exact fun c => hs.call hcb nofun

theorem bioFinishRecord_standing (hcb : Spares callback head markers) {status : Int}
    (hs : Standing s head markers (bio::rest++t.queue) t) :
    Standing s head markers (rest++(bioFinishRecord callback bio status t).queue)
      (bioFinishRecord callback bio status t) := by
  have h1 : Passes head False t ((t.onBio bio fun r => { r with
      result := status
      bio := { r.bio with status := if status=0 then 0 else 1 } }).note (.done bio status)) :=
    Passes.trans (.onBio bio ⟨_,rfl⟩) (.note nofun)
  have h2 := h1.trans (.onBio bio (f := fun r => { r with completed := true }) ⟨_,rfl⟩)
  have htail : (rest++t.queue).Sublist (bio::rest++t.queue) := sublist_cons_self _ _
  have hwhole := hs.pass False.elim h2 (Sublist.refl _)
  apply bioCallEndIo_rule (P := fun u => Standing s head markers (rest++u.queue) u) rfl
  · exact hs.pass False.elim h1 htail
  · exact hs.pass False.elim h2 htail
  · intro he success
    refine headComplete_standing hcb ⟨?_,?_⟩ hwhole
    · simpa [FsState.onBio] using he
    · simp [FsState.onBio]
  · intro v hv
    refine hv.pass False.elim .put ((Sublist.refl rest).append ?_)
    simp only [bioPut,bioQueueRemove]
    split_ifs
    · exact Sublist.refl _
    · exact Sublist.refl _
    · exact erase_sublist
    · exact Sublist.refl _
  · intro c
    refine hwhole.call hcb fun f b hb => ?_
    cases hb
    rfl

theorem bioFinishRecords_standing (hcb : Spares callback head markers) {bios : List Nat}
    {status : Int} (hs : Standing s head markers (bios++t.queue) t) :
    Standing s head markers (bioFinishRecords callback bios status t).queue
      (bioFinishRecords callback bios status t) := by
  induction bios generalizing t with
  | nil => exact hs
  | cons bio bios ih => exact ih (bioFinishRecord_standing hcb hs)

theorem Standing.status (hs : Standing s head markers todo t) (status : Int) :
    Standing s head markers todo { t with lastDrainStatus := status } := by
  have hpass : Passes head False t { t with lastDrainStatus := status } :=
    .silent rfl rfl rfl (fun _ => ⟨_,rfl⟩) rfl
  exact hs.pass False.elim hpass (Sublist.refl _)

theorem drainLoop_standing (env : Env δ) (hcb : Spares callback head markers) (fuel : Nat)
    (hs : Standing s head markers t.queue t) :
    Standing s head markers (drainLoop env callback fuel t).2.queue
      (drainLoop env callback fuel t).2 := by
  induction fuel generalizing t with
  | zero =>
    simp only [drainLoop]
    split
    · exact hs
    · exact hs.pass (u := { t with hung := true }) False.elim
        (.silent rfl rfl rfl (fun _ => ⟨_,rfl⟩) rfl)
        (Sublist.refl _)
  | succ fuel ih =>
    unfold drainLoop
    split
    · exact hs
    next bio rest hq =>
    obtain ⟨n,x,hx⟩ := drainOnce_spec env hq
    apply ih
    rw [hx.turn callback]
    have hmoved := (hx.first hq).transferred (bioQueuePops n t)
    have hqueue : (x (bioQueuePops n t)).2.queue=t.queue.drop n := by
      rw [hmoved.rest]
      exact bioQueuePops_queue t
    have hmove : Passes head False t (x (bioQueuePops n t)).2 :=
      Passes.pops.trans (.transferred hmoved)
    have hall : Standing s head markers (t.queue.take n++(x (bioQueuePops n t)).2.queue)
        (x (bioQueuePops n t)).2 := hs.pass False.elim hmove (by rw [hqueue,take_append_drop])
    exact bioFinishRecords_standing hcb (hall.status _)

/-- The end of a module's bio calls `mark_buffer_dirty`. -/
def marking (bio head : Nat) (call : Call) (s : FsState δ) : FsState δ :=
  match call with
  | .bio _ b => if b=bio then markBufferDirty head s else s
  | _ => s

theorem markBufferDirty_rest : (markBufferDirty head s).bios=s.bios ∧
    (markBufferDirty head s).queue=s.queue ∧ (markBufferDirty head s).trace=s.trace++[.marked head] := by
  rw [markBufferDirty_eq]
  split
  · exact ⟨rfl,rfl,rfl⟩
  · exact ⟨setDirty_bios,setDirty_queue,setDirty_trace _ _ _⟩

theorem markBufferDirty_isDirty (hs : Cached s head) :
    Cached (markBufferDirty head s) head ∧ IsDirty (markBufferDirty head s) head := by
  have hfile : (markHead head s).fileFolio ((markHead head s).heads head).folio=false := by
    simpa [markHead,FsState.onHead,FsState.note] using hs.block
  have hrecord : bufferCacheRecordForHead (markHead head s) head=bufferCacheRecordForHead s head :=
    recordForHead_congr rfl
  rw [markBufferDirty_eq,if_neg (by simp [hfile])]
  obtain ⟨hrec,hcache⟩ := @setDirty_records δ (markHead head s) head true head
  refine ⟨⟨?_,?_⟩,?_,fun i hi => ?_⟩
  · rw [hrec,hrecord]
    exact hs.record
  · rw [setDirty_heads,setDirty_fileFolio]
    exact hfile
  · rw [setDirty_heads]
    simp [markHead,FsState.note,FsState.onHead]
  · rw [hrec] at hi
    rw [hcache i hi,if_pos rfl]

theorem marking_spares (bio head : Nat) :
    Spares (marking bio head : Call → FsState δ → FsState δ) head (fun b => b=bio) := by
  have hcase : ∀ c (s : FsState δ),marking bio head c s=s ∨
      (marking bio head c s=markBufferDirty head s ∧ ∃ f b,c=.bio f b ∧ b=bio) := by
    intro c s
    cases c with
    | bio f b =>
      by_cases hb : b=bio
      · exact Or.inr ⟨if_pos hb,f,b,rfl,hb⟩
      · exact Or.inl (if_neg hb)
    | head c x success => exact Or.inl rfl
    | deferred => exact Or.inl rfl
  refine ⟨fun c s hs => ?_,fun c s b he => ?_,fun c s => ⟨[],?_,nofun⟩,fun c s hs hd => ?_,
    fun c s hs => ?_⟩
  all_goals rcases hcase c s with heq|⟨heq,hc⟩
  · rwa [heq]
  · rw [heq]
    exact (markBufferDirty_isDirty hs).1
  · rwa [heq] at he
  · rw [heq] at he
    unfold EndsHead at he
    rwa [markBufferDirty_rest.1] at he
  · rw [heq,append_nil]
  · rw [heq,append_nil,markBufferDirty_rest.2.1]
  · rwa [heq]
  · rw [heq]
    exact (markBufferDirty_isDirty hs).2
  · rw [heq]
    exact ⟨[],(append_nil _).symm,nofun⟩
  · rw [heq]
    exact ⟨_,markBufferDirty_rest.2.2,fun _ => ⟨(markBufferDirty_isDirty hs).2,hc⟩⟩

end

/-- The write of a dirty buffer and a write bio with a completion callback, queued behind a plug. -/
def pluggedBehind : FsState Bytes :=
  let s := runAll (exec sampleEnv still 4) (bootState sampleDevice)
    [.bdevGetblk 1 3 512,.markBufferDirty 1,.startPlug,.writeDirtyBuffer 1 0,
      .bioAlloc 1 1 opWrite,.bioAddPage 2 8192 512 0,.submitBio 2]
  s.onBio 2 fun r => {r with bio := {r.bio with endIo := .module 0}}

/-- The same two writes the other way round. -/
def pluggedWrites : FsState Bytes :=
  let s := runAll (exec sampleEnv still 4) (bootState sampleDevice)
    [.bdevGetblk 1 3 512,.markBufferDirty 1,.startPlug,.bioAlloc 1 1 opWrite,
      .bioAddPage 1 8192 512 0,.submitBio 1,.writeDirtyBuffer 1 0]
  s.onBio 1 fun r => {r with bio := {r.bio with endIo := .module 0}}

end Kobox.Fs
