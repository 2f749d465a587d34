import Kobox.Framework.Run

namespace Kobox.Fs.Errseq

open Function

/-- An `errseq_t`: the error in bits 0-11, the seen flag in bit 12, a counter in the bits above. -/
abbrev Word := BitVec 32

def errorMask : Word := 4095#32
def seen : Word := 1#32<<<12
def counterIncrement : Word := 1#32<<<13

/-- The word `errseq_set` leaves; nothing else writes it between the load and the exchange. -/
def errseqSet (sequence : Word) (error : Int) : Word :=
  if 0≤error ∨ 4095 < -error then sequence else
  let replacement := (sequence &&& ~~~(errorMask ||| seen)) ||| BitVec.ofInt 32 (-error)
  if sequence &&& seen≠0 then replacement+counterIncrement else replacement

def errseqSample (sequence : Word) : Word := if sequence &&& seen≠0 then sequence else 0

def errseqCheck (sequence since : Word) : Int :=
  if sequence=since then 0 else -((sequence &&& errorMask).toNat : Int)

/-- The result, the word and the reader's copy that `errseq_check_and_advance` leaves. -/
def errseqCheckAndAdvance (sequence since : Word) : Int × Word × Word :=
  if sequence=since then (0,sequence,since) else
  let replacement := sequence ||| seen
  (-((replacement &&& errorMask).toNat : Int),replacement,replacement)

/-- A mapping's error word and flags, and the word each file on it has stored. -/
structure Mapping (File : Type) where
  wbErr : Word := 0
  flags : BitVec 64 := 0
  since : File → Word := fun _ => 0

variable {File : Type} [DecidableEq File]

def filemapSetWbErr (m : Mapping File) (error : Int) : Mapping File :=
  if error=0 then m else {m with wbErr := errseqSet m.wbErr error}

def fileCheckAndAdvanceWbErr (m : Mapping File) (file : File) : Int × Mapping File :=
  let old := m.since file
  let r := if errseqCheck m.wbErr old≠0 then errseqCheckAndAdvance m.wbErr old
    else (0,m.wbErr,old)
  (r.1,{m with
    wbErr := r.2.1
    since := update m.since file r.2.2
    flags := m.flags &&& ~~~3#64})

/-- `finish_open` copies the mapping's word as it stands. -/
def finishOpenWbErr (sequence : Word) : Word := sequence

structure WbErr where
  code : Int
  neg : code < 0
  bound : -4095 ≤ code

inductive Call (File : Type) where
  | setWbErr (error : WbErr)
  | starts (file : File)
  | check (file : File)

/-- One call; `start` is how a file that begins to watch the mapping samples the word. -/
def step (start : Word → Word) (m : Mapping File) : Call File → Mapping File
  | .setWbErr error => filemapSetWbErr m error.code
  | .starts file => {m with since := update m.since file (start m.wbErr)}
  | .check file => (fileCheckAndAdvanceWbErr m file).2

/-! ## The three parts of a word -/

def errorOf (w : Word) : Nat := w.toNat%4096
def IsSeen (w : Word) : Prop := w &&& seen≠0
def countOf (w : Word) : Nat := w.toNat/8192

theorem isSeen_iff {w : Word} : IsSeen w ↔ w.toNat/4096%2=1 := by
  have h : w &&& seen=_ := BitVec.and_twoPow w 12
  rw [IsSeen,h,BitVec.getLsbD,Nat.testBit_eq_decide_div_mod_eq]
  by_cases hw : w.toNat/4096%2=1
  · simp [hw]
    decide
  · simp [hw]

theorem errorMask_toNat {w : Word} : (w &&& errorMask).toNat=errorOf w := by
  simpa [errorMask,errorOf] using Nat.and_two_pow_sub_one_eq_mod w.toNat 12

theorem ext_parts {v w : Word} (he : errorOf v=errorOf w) (hs : IsSeen v ↔ IsSeen w)
    (hc : countOf v=countOf w) : v=w := by
  rw [isSeen_iff,isSeen_iff] at hs
  unfold errorOf countOf at *
  exact BitVec.eq_of_toNat_eq (by omega)

theorem or_seen (w : Word) : errorOf (w ||| seen)=errorOf w ∧ IsSeen (w ||| seen) ∧
    countOf (w ||| seen)=countOf w := by
  have he := @Nat.or_mod_two_pow w.toNat 4096 12
  have hb := @Nat.or_div_two_pow w.toNat 4096 12
  have hm := @Nat.or_mod_two_pow (w.toNat/4096) 1 1
  have hc := @Nat.or_div_two_pow w.toNat 4096 13
  refine ⟨by simpa [errorOf,seen] using he,?_,by simpa [countOf,seen] using hc⟩
  rw [isSeen_iff]
  simp only [seen,BitVec.toNat_or] at hb hm ⊢
  rw [show (1#32<<<12).toNat=4096 from rfl,hb,hm]
  rcases Nat.mod_two_eq_zero_or_one (w.toNat/4096) with h|h <;> simp [h]

theorem replaced (w : Word) {e : Nat} (he : e < 4096) :
    ((w &&& ~~~(errorMask ||| seen)) ||| BitVec.ofNat 32 e).toNat=w.toNat/8192*8192+e := by
  have h : w &&& ~~~(errorMask ||| seen)=(w>>>13)<<<13 := by
    ext i hi
    interval_cases i <;> simp [errorMask,seen]
  have hor := Nat.two_pow_add_eq_or_of_lt (show e < 2^13 by omega) (w.toNat/8192)
  rw [h,BitVec.toNat_or,BitVec.toNat_ofNat,Nat.mod_eq_of_lt (by omega),BitVec.toNat_shiftLeft,
    BitVec.toNat_ushiftRight,Nat.shiftRight_eq_div_pow,Nat.shiftLeft_eq,Nat.mod_eq_of_lt (by omega),
    Nat.mul_comm,← hor]

theorem errseqSet_parts (w : Word) (e : WbErr) :
    (errorOf (errseqSet w e.code) : Int)=-e.code ∧ ¬IsSeen (errseqSet w e.code) ∧
      (IsSeen w → countOf (errseqSet w e.code)=(countOf w+1)%2^19) ∧
      (¬IsSeen w → countOf (errseqSet w e.code)=countOf w) := by
  obtain ⟨code,neg,bound⟩ := e
  obtain ⟨n,rfl⟩ : ∃ n : Nat,code= -n := ⟨(-code).toNat,by omega⟩
  have hr := replaced w (show n < 4096 by omega)
  have hinc : counterIncrement.toNat=8192 := rfl
  have hset : errseqSet w (-n)=if w &&& seen≠0 then
      ((w &&& ~~~(errorMask ||| seen)) ||| BitVec.ofNat 32 n)+counterIncrement
      else (w &&& ~~~(errorMask ||| seen)) ||| BitVec.ofNat 32 n := by
    rw [errseqSet,if_neg (by omega),neg_neg,BitVec.ofInt_natCast]
  rw [hset,isSeen_iff,isSeen_iff]
  unfold errorOf countOf
  by_cases hs : w &&& seen≠0
  · have := (isSeen_iff).mp hs
    rw [if_pos hs]
    simp only [BitVec.toNat_add,hr,hinc]
    omega
  · have := mt (isSeen_iff).mpr hs
    rw [if_neg hs]
    simp only [hr]
    omega

variable {m : Mapping File} {f : File}

theorem check_same (h : m.since f=m.wbErr) :
    fileCheckAndAdvanceWbErr m f=(0,{m with flags := m.flags &&& ~~~3#64}) := by
  have hup : update m.since f m.wbErr=m.since := by simp [← h]
  simp [fileCheckAndAdvanceWbErr,errseqCheck,h,hup]

theorem check_differs (h : m.since f≠m.wbErr) (he : errorOf m.wbErr≠0) :
    fileCheckAndAdvanceWbErr m f=(-(errorOf m.wbErr : Int),{m with
      wbErr := m.wbErr ||| seen
      since := update m.since f (m.wbErr ||| seen)
      flags := m.flags &&& ~~~3#64}) := by
  have hne : errseqCheck m.wbErr (m.since f)≠0 := by
    rw [errseqCheck,if_neg h.symm,errorMask_toNat]
    omega
  simp only [fileCheckAndAdvanceWbErr,if_pos hne,errseqCheckAndAdvance,if_neg h.symm,
    errorMask_toNat,(or_seen _).1]

/-! ## What the calls so far oblige a check to report -/

/-- The history as the readers of the error see it. -/
structure Ledger (File : Type) where
  /-- The error set most recently. -/
  latest : Int := 0
  /-- No check has returned that error. -/
  unreported : Bool := false
  /-- An error was set after the file's previous check, or its start. -/
  setSince : File → Bool := fun _ => false
  /-- The file has not checked yet, and an error was unreported when it started. -/
  carried : File → Bool := fun _ => false
  /-- The errors that some check returned after the file's previous check, or its start. -/
  reported : File → Nat := fun _ => 0

def Ledger.Owes (l : Ledger File) (file : File) : Prop := l.setSince file ∨ l.carried file

instance (l : Ledger File) (file : File) : Decidable (l.Owes file) :=
  inferInstanceAs (Decidable (_ ∨ _))

def Ledger.step (l : Ledger File) : Call File → Ledger File
  | .setWbErr error => {l with latest := error.code,unreported := true,setSince := fun _ => true}
  | .starts file => {l with
    setSince := update l.setSince file false
    carried := update l.carried file l.unreported
    reported := update l.reported file 0}
  | .check file => {l with
    unreported := l.unreported && !l.Owes file
    setSince := update l.setSince file false
    carried := update l.carried file false
    reported := update
      (fun g => l.reported g+if l.Owes file ∧ l.unreported then 1 else 0) file 0}

def watch (w : Mapping File × Ledger File) (call : Call File) : Mapping File × Ledger File :=
  (step errseqSample w.1 call,w.2.step call)

/-- Fewer than 2^19 errors were reported since the file's previous check. -/
def Within (w : Mapping File × Ledger File) : Call File → Prop
  | .check file => w.2.reported file < 2^19
  | _ => True

instance (w : Mapping File × Ledger File) : (call : Call File) → Decidable (Within w call)
  | .check _ => inferInstanceAs (Decidable (_ < _))
  | .setWbErr _ => isTrue trivial
  | .starts _ => isTrue trivial

/-- The stored word was seen; the counter moved once for each reported error, and for an unreported
one. -/
def Behind (m : Mapping File) (l : Ledger File) (file : File) : Prop :=
  IsSeen (m.since file) ∧ ∃ k,1≤k ∧ k≤l.reported file+(if l.unreported then 1 else 0) ∧
    countOf m.wbErr=(countOf (m.since file)+k)%2^19

structure Tracks (w : Mapping File × Ledger File) : Prop where
  error : (errorOf w.1.wbErr : Int)=-w.2.latest
  seen : IsSeen w.1.wbErr ↔ w.2.latest≠0 ∧ w.2.unreported=false
  clean : w.2.latest=0 → w.1.wbErr=0 ∧ w.2.unreported=false
  owed : ∀ f,w.2.Owes f → w.2.latest≠0 ∧ (w.1.since f=0 ∨ Behind w.1 w.2 f)
  current : ∀ f,¬w.2.Owes f → w.1.since f=w.1.wbErr ∧ w.2.unreported=false

variable {w : Mapping File × Ledger File}

theorem Tracks.setWbErr (h : Tracks w) (e : WbErr) : Tracks (watch w (.setWbErr e)) := by
  have hne : e.code≠0 := by have := e.neg; omega
  obtain ⟨he,hs,hc,hk⟩ := errseqSet_parts w.1.wbErr e
  refine ⟨?_,?_,?_,fun f _ => ?_,fun f hf => ?_⟩
  all_goals simp only [watch,step,filemapSetWbErr,if_neg hne,Ledger.step] at *
  · exact he
  · simp [hs]
  · simp [hne]
  · refine ⟨hne,?_⟩
    by_cases ho : w.2.Owes f
    · rcases (h.owed f ho).2 with h0|⟨hf,k,hk1,hkr,hkc⟩
      · exact .inl h0
      refine .inr ⟨hf,?_⟩
      by_cases hw : IsSeen w.1.wbErr
      · have hu := (h.seen.mp hw).2
        simp only [hu] at hkr
        exact ⟨k+1,by omega,by simpa using hkr,by simp only [hc hw,hkc]; omega⟩
      · exact ⟨k,hk1,by split at hkr <;> simp <;> omega,by simp only [hk hw,hkc]⟩
    · obtain ⟨hf,hu⟩ := h.current f ho
      by_cases h0 : w.2.latest=0
      · exact .inl (hf.trans (h.clean h0).1)
      · have hw := h.seen.mpr ⟨h0,hu⟩
        exact .inr ⟨by rwa [hf],1,le_rfl,by simp,by simp only [hc hw,hf]⟩
  · exact absurd (.inl rfl) hf

theorem Tracks.starts (h : Tracks w) (f : File) : Tracks (watch w (.starts f)) := by
  refine ⟨h.error,h.seen,h.clean,fun g hg => ?_,fun g hg => ?_⟩
  all_goals
    by_cases hgf : g=f
    · simp [watch,step,Ledger.step,Ledger.Owes,Behind,errseqSample] at hg ⊢
      have := h.seen
      have := h.clean
      unfold IsSeen at *
      grind
    · simp [watch,step,Ledger.step,Ledger.Owes,Behind,hgf] at hg ⊢
      first | exact h.owed g hg | exact h.current g (by simpa [Ledger.Owes] using hg)

omit [DecidableEq File] in
theorem Tracks.differs (h : Tracks w) (ho : w.2.Owes f) (hr : w.2.reported f < 2^19) :
    w.1.wbErr≠w.1.since f := by
  intro heq
  obtain ⟨hl,h0|⟨hf,k,hk1,hkr,hkc⟩⟩ := h.owed f ho
  · have he := h.error
    rw [heq,h0] at he
    simp [errorOf] at he
    omega
  · rw [← heq] at hf
    simp only [(h.seen.mp hf).2] at hkr
    rw [← heq] at hkc
    simp at hkr
    omega

theorem Tracks.check_result (h : Tracks w) (hr : w.2.reported f < 2^19) :
    (w.2.Owes f → fileCheckAndAdvanceWbErr w.1 f=(w.2.latest,{w.1 with
      wbErr := w.1.wbErr ||| Errseq.seen
      since := update w.1.since f (w.1.wbErr ||| Errseq.seen)
      flags := w.1.flags &&& ~~~3#64})) ∧
    (¬w.2.Owes f → fileCheckAndAdvanceWbErr w.1 f=(0,{w.1 with
      flags := w.1.flags &&& ~~~3#64})) := by
  constructor
  · intro ho
    have hl := (h.owed f ho).1
    have he := h.error
    rw [check_differs (h.differs ho hr).symm (by omega),he,neg_neg]
  · intro ho
    exact check_same (h.current f ho).1

theorem Tracks.check (h : Tracks w) (hr : w.2.reported f < 2^19) : Tracks (watch w (.check f)) := by
  obtain ⟨howed,hcurrent⟩ := h.check_result hr
  obtain ⟨he,hs,hc⟩ := or_seen w.1.wbErr
  by_cases ho : w.2.Owes f
  · have hl := (h.owed f ho).1
    refine ⟨?_,?_,?_,fun g hg => ?_,fun g hg => ?_⟩
    all_goals simp only [watch,step,howed ho,Ledger.step,ho] at *
    · rw [he,h.error]
    · simp [hs,hl]
    · simp [hl]
    · have hgf : g≠f := by
        rintro rfl
        simp [Ledger.Owes] at hg
      simp only [Ledger.Owes,Behind,update_of_ne hgf] at hg ⊢
      refine ⟨hl,(h.owed g hg).2.imp_right ?_⟩
      rintro ⟨hf,k,hk1,hkr,hkc⟩
      exact ⟨hf,k,hk1,by simpa using hkr,hc ▸ hkc⟩
    · by_cases hgf : g=f
      · simp [hgf]
      · simp only [Ledger.Owes,update_of_ne hgf] at hg ⊢
        obtain ⟨hg,hu⟩ := h.current g hg
        have hw := h.seen.mpr ⟨hl,hu⟩
        exact ⟨hg.trans (ext_parts he (by simp [hs,hw]) hc).symm,by simp⟩
  · have hf := h.current f ho
    refine ⟨?_,?_,?_,fun g hg => ?_,fun g hg => ?_⟩
    all_goals simp only [watch,step,hcurrent ho,Ledger.step,ho] at *
    · exact h.error
    · simpa using h.seen
    · simpa using h.clean
    · have hgf : g≠f := by
        rintro rfl
        simp [Ledger.Owes] at hg
      simp only [Ledger.Owes,Behind,update_of_ne hgf] at hg ⊢
      simpa [Behind] using h.owed g hg
    · by_cases hgf : g=f
      · simpa [hgf] using hf
      · simp only [Ledger.Owes,update_of_ne hgf] at hg ⊢
        simpa using h.current g hg

theorem tracks_watch (w : Mapping File × Ledger File) (call : Call File) (h : Tracks w)
    (hw : Within w call) : Tracks (watch w call) := by
  cases call with
  | setWbErr e => exact h.setWbErr e
  | starts f => exact h.starts f
  | check f => exact h.check hw

omit [DecidableEq File] in
theorem tracks_start : Tracks (({},{}) : Mapping File × Ledger File) := by
  refine ⟨rfl,?_,fun _ => ⟨rfl,rfl⟩,fun f hf => ?_,fun f _ => ⟨rfl,rfl⟩⟩
  · simp [IsSeen]
  · simp [Ledger.Owes] at hf

/-- A check returns an error exactly when one was set after the file's last check or sample, or was
unreported when sampled: the latest one. -/
theorem check_reports_latest (calls : List (Call File)) (f : File)
    (h : Meets watch Within ({},{}) (calls++[.check f])) :
    let w := runAll watch ({},{}) calls
    let r := (fileCheckAndAdvanceWbErr w.1 f).1
    (r≠0 ↔ w.2.setSince f ∨ w.2.carried f) ∧ (r≠0 → r=w.2.latest) := by
  have ht : Tracks (runAll watch ({},{}) calls) :=
    runAll_invariant tracks_watch tracks_start (by simpa using h.take calls.length)
  have hr : Within (runAll watch ({},{}) calls) (.check f) := by
    simpa using h.get (show (calls++[.check f])[calls.length]?=some (.check f) by simp)
  obtain ⟨ho,hc⟩ := ht.check_result hr
  by_cases hf : (runAll watch ({},{}) calls).2.Owes f
  · have hl := (ht.owed f hf).1
    simp only [ho hf]
    exact ⟨⟨fun _ => hf,fun _ => hl⟩,fun _ => trivial⟩
  · simp only [hc hf]
    exact ⟨⟨fun h => absurd rfl h,fun h => absurd h hf⟩,fun h => absurd rfl h⟩

def eio : WbErr := ⟨-5,by decide,by decide⟩

theorem check_reports_latest_eio :
    (fileCheckAndAdvanceWbErr (runAll watch ({},{})
      ([.check 0,.setWbErr eio] : List (Call Nat))).1 0).1=-5 :=
  (check_reports_latest [.check 0,.setWbErr eio] 0 (by decide +kernel)).2 (by decide +kernel)

/-- The sample leaves out an error nobody has seen: the first check returns it, nothing set since. -/
theorem sampled_before_report :
    let w := runAll watch ({},{}) ([.setWbErr eio,.starts 0] : List (Call Nat))
    (fileCheckAndAdvanceWbErr w.1 0).1=-5 ∧ w.2.setSince 0=false := by
  decide +kernel

/-! ## Files that copy the word as it stands -/

/-- A call after which still nobody has been told of the error. -/
def Unheard (m : Mapping File) : Call File → Prop
  | .setWbErr _ => False
  | .starts _ => True
  | .check f => (fileCheckAndAdvanceWbErr m f).1=0

/-- The calls of the other files, none of which sets an error. -/
def Others (f : File) : Call File → Prop
  | .setWbErr _ => False
  | .starts g => g≠f
  | .check g => g≠f

/-- Some file with a word other than w checks before it is opened again. -/
def OlderChecks (w : Word) : (File → Word) → List (Call File) → Prop
  | _,[] => False
  | since,.check g::calls => since g≠w ∨ OlderChecks w since calls
  | since,.starts g::calls => OlderChecks w (update since g w) calls
  | since,.setWbErr _::calls => OlderChecks w since calls

variable {calls : List (Call File)}

theorem told_after_report {e : WbErr} (he : (errorOf m.wbErr : Int)=-e.code) (hs : IsSeen m.wbErr)
    (hf : ¬IsSeen (m.since f)) (ho : ∀ c∈calls,Others f c) :
    (fileCheckAndAdvanceWbErr (runAll (step finishOpenWbErr) m calls) f).1=e.code := by
  have hne : errorOf m.wbErr≠0 := by
    have := e.neg
    omega
  induction calls generalizing m with
  | nil =>
    have hd : m.since f≠m.wbErr := by
      intro h
      exact hf (h ▸ hs)
    simp [check_differs hd hne,he]
  | cons c calls ih =>
    obtain ⟨hc,hrest⟩ := List.forall_mem_cons.mp ho
    cases c with
    | setWbErr e' => exact hc.elim
    | starts g =>
      refine ih ?_ ?_ ?_ hrest ?_
      all_goals simp_all [step,Others,update_of_ne (Ne.symm hc)]
    | check g =>
      obtain ⟨he',hs',-⟩ := or_seen m.wbErr
      by_cases hg : m.since g=m.wbErr
      · refine ih ?_ ?_ ?_ hrest ?_
        all_goals simpa [step,check_same hg]
      · refine ih ?_ ?_ ?_ hrest ?_
        all_goals simp_all [step,check_differs hg hne,update_of_ne (Ne.symm hc)]

theorem told_iff {e : WbErr} (he : (errorOf m.wbErr : Int)=-e.code) (hs : ¬IsSeen m.wbErr)
    (hf : m.since f=m.wbErr) (ho : ∀ c∈calls,Others f c) :
    (fileCheckAndAdvanceWbErr (runAll (step finishOpenWbErr) m calls) f).1=e.code ↔
      OlderChecks m.wbErr m.since calls := by
  have hne : errorOf m.wbErr≠0 := by
    have := e.neg
    omega
  induction calls generalizing m with
  | nil =>
    simp only [runAll_nil,check_same hf,OlderChecks]
    exact iff_of_false (by omega) id
  | cons c calls ih =>
    obtain ⟨hc,hrest⟩ := List.forall_mem_cons.mp ho
    cases c with
    | setWbErr e' => exact hc.elim
    | starts g =>
      exact ih (m := step finishOpenWbErr m (.starts g)) he hs
        ((update_of_ne (Ne.symm hc) _ _).trans hf) hrest hne
    | check g =>
      by_cases hg : m.since g=m.wbErr
      · simp only [OlderChecks,hg,ne_eq,not_true_eq_false,false_or,runAll_cons,step,check_same hg]
        exact ih he hs hf hrest hne
      obtain ⟨he',hs',-⟩ := or_seen m.wbErr
      have hstep : step finishOpenWbErr m (.check g)=_ :=
        congrArg Prod.snd (check_differs hg hne)
      refine iff_of_true ?_ (.inl hg)
      rw [runAll_cons,hstep]
      exact told_after_report (by simpa [he'] using he) hs'
        (by simpa [update_of_ne (Ne.symm hc),hf] using hs) hrest

theorem unheard_wbErr (hne : errorOf m.wbErr≠0) (h : Meets (step finishOpenWbErr) Unheard m calls) :
    (runAll (step finishOpenWbErr) m calls).wbErr=m.wbErr := by
  induction calls generalizing m with
  | nil => rfl
  | cons c calls ih =>
    obtain ⟨hc,hrest⟩ := h
    have hw : (step finishOpenWbErr m c).wbErr=m.wbErr := by
      cases c with
      | setWbErr e => exact hc.elim
      | starts g => rfl
      | check g =>
        by_cases hg : m.since g=m.wbErr
        · simp [step,check_same hg]
        · simp only [Unheard,check_differs hg hne] at hc
          omega
    rw [runAll_cons,ih (hw ▸ hne) hrest,hw]

/-- A file opened with an error unreported is told of it if a file with an older word checks first. -/
theorem opened_told_iff (before quiet between : List (Call File)) (e : WbErr) (f : File)
    (hq : Meets (step finishOpenWbErr) Unheard
      (runAll (step finishOpenWbErr) {} (before++[.setWbErr e])) quiet)
    (hb : ∀ c∈between,Others f c) :
    let opened := runAll (step finishOpenWbErr) {} (before++[.setWbErr e]++quiet++[.starts f])
    (fileCheckAndAdvanceWbErr (runAll (step finishOpenWbErr) opened between) f).1=e.code ↔
      OlderChecks opened.wbErr opened.since between := by
  have hset := errseqSet_parts (runAll (step finishOpenWbErr) {} before).wbErr e
  have hcode := e.neg
  simp only [runAll_append,runAll_cons,runAll_nil,step,filemapSetWbErr,if_neg hcode.ne] at hq ⊢
  have hw := unheard_wbErr (by simp only; omega) hq
  exact told_iff (by simp only [hw]; exact hset.1) (by simp only [hw]; exact hset.2.1)
    (by simp [finishOpenWbErr]) hb

/-- File 1 opened before the error and checks between, so file 0 is told. -/
theorem opened_told_after_other :
    (fileCheckAndAdvanceWbErr (runAll (step finishOpenWbErr) {}
      ([.starts 1,.setWbErr eio,.starts 0,.check 1] : List (Call Nat))) 0).1=-5 :=
  (opened_told_iff [.starts 1] [] [.check 1] eio 0 trivial (by simp [Others])).mpr
    (.inl (by decide +kernel))

theorem opened_not_told :
    (fileCheckAndAdvanceWbErr (runAll (step finishOpenWbErr) {}
      ([.setWbErr eio,.starts 0] : List (Call Nat))) 0).1=0 := by
  decide +kernel

end Kobox.Fs.Errseq
