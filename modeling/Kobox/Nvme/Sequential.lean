import Kobox.Nvme.WriteBatch

namespace Kobox.Nvme

/-- `nvme_block_disk_read_batch` and `nvme_block_disk_write_batch`. -/
def diskBatch (env : Env) : Opcode → List IoRequest → Io → Int × Io
  | .read => diskReadBatch env
  | .write => diskWriteBatch env

def BatchFits (env : Env) (opcode : Opcode) (medium : Nat → UInt8) (qs : List IoRequest) : Prop :=
  match opcode with
  | .read => ReadFits env medium qs
  | .write => WriteFits env qs

variable {env : Env} {qs : List IoRequest}

theorem ReadFits.turning {medium : Nat → UInt8} (h : ReadFits env medium qs) (turn : Option Nat → Io → List Act) :
    ReadFits (env.turning turn) medium qs :=
  ⟨h.several,fun g hg m hm => (OneFits.turning turn).mpr (h.fits g hg m hm),h.settled⟩

theorem WriteGroupFits.turning (h : WriteGroupFits env qs) (turn : Option Nat → Io → List Act) :
    WriteGroupFits (env.turning turn) qs :=
  ⟨h.limits.imp_right fun l => ⟨l.each,l.buffer⟩,fun m hm =>
    (OneFits.turning turn).mpr (h.fits m hm)⟩

theorem WriteFits.turning (h : WriteFits env qs) (turn : Option Nat → Io → List Act) :
    WriteFits (env.turning turn) qs :=
  ⟨h.group.turning turn,fun h1 h2 g hg => (h.cut h1 h2 g hg).turning turn⟩

/-- Batches of requests that each succeed alone equal them one after another, in whatever order
commands are taken, if and only if they fit. -/
theorem batch_equals_one_by_one (env : Env) (opcode : Opcode) (qs : List IoRequest) (s : Io)
    (ha : Ample env) (hp : Prompt env) (hidle : Idle s)
    (hcount : 1≤qs.length ∧ qs.length ≤ batchMax)
    (hone : ∀ q∈qs,(diskIo env opcode q.sector q.data q.byteCount s).1=0)
    (hplace : Outside qs) (hapart : qs.Pairwise Apart) :
    (∀ turn,Prompt (env.turning turn) → SameResult (diskBatch (env.turning turn) opcode qs s)
          (oneByOne (env.turning turn) opcode qs s)) ↔
      BatchFits env opcode s.medium qs := by
  have hfit : ∀ q∈qs,OneFits env opcode q := fun q hq =>
    (diskIo_effect ha hp hidle opcode q).1.mp (hone q hq)
  have hfit' : ∀ turn,∀ q∈qs,OneFits (env.turning turn) opcode q := fun turn q hq =>
    (OneFits.turning turn).mpr (hfit q hq)
  cases opcode with
  | read =>
    constructor
    · exact readFits_of_same ha hidle hcount.2 hfit hplace hapart
    · intro h turn hturn
      exact (h.turning turn).same (ha.turning turn) hturn hidle hcount.2 (hfit' turn)
  | write =>
    have hne : qs≠[] := by
      rintro rfl
      simp at hcount
    constructor
    · intro h
      exact (diskWriteBatch_spec ha hp hidle hne hcount.2 hfit hplace hapart).1.mp (h env.turn hp).1
    intro h turn hturn
    obtain ⟨hiff,hdone⟩ := diskWriteBatch_spec (ha.turning turn) hturn hidle hne hcount.2
      (hfit' turn) hplace hapart
    have hwrite := (hdone (WriteFits.turning h turn)).2
    have hseq := oneByOne_effect (ha.turning turn) hturn hidle (hfit' turn)
    refine ⟨hiff.mpr (WriteFits.turning h turn),?_,fun place hn => ?_⟩
    · exact hwrite.medium.trans hseq.2.symm
    · exact (hwrite.mem place hn).trans (congrFun hseq.1 place).symm

theorem quickEnv_ample : Ample (quickEnv 512) :=
  ⟨rfl,fun _ => rfl,fun _ => rfl,fun _ => rfl,fun _ => rfl,fun _ => rfl,fun _ _ _ => rfl⟩

theorem blankIo_idle : Idle blankIo := ⟨rfl,fun _ _ => rfl⟩

/-- Two writes to sectors that do not adjoin. -/
def apartPair : List IoRequest := [⟨0,⟨.caller,4096⟩,512⟩,⟨8,⟨.caller,8192⟩,512⟩]

theorem apartPair_fits : BatchFits (quickEnv 512) .write blankIo.medium apartPair := by
  have hone : ∀ q∈apartPair,OneFits (quickEnv 512) .write q := by
    intro q hq
    fin_cases hq <;> exact ⟨rfl,by decide,by decide,rfl⟩
  exact ⟨⟨.inr ⟨by decide,by rintro q ⟨⟩; decide⟩,hone⟩,fun _ h => absurd h (by decide)⟩

theorem batch_equals_one_by_one_pair : SameResult (diskBatch (quickEnv 512) .write apartPair blankIo)
    (oneByOne (quickEnv 512) .write apartPair blankIo) :=
  (batch_equals_one_by_one (quickEnv 512) .write apartPair blankIo quickEnv_ample quickEnv_prompt
    blankIo_idle (by decide) (by decide +kernel) (by simp [Outside,apartPair])
    (by simp [Apart,lbaUnit,apartPair])).mpr apartPair_fits (quickEnv 512).turn quickEnv_prompt

/-- A read batch of one request is refused, and one of adjoining reads that touch a page too many. -/
theorem batch_refused : (oneByOne (quickEnv 512) .read [⟨0,⟨.caller,4096⟩,512⟩] blankIo).1=0 ∧
    (diskBatch (quickEnv 512) .read [⟨0,⟨.caller,4096⟩,512⟩] blankIo).1=einval ∧
    (oneByOne (quickEnv 512) .read
      [⟨0,⟨.caller,512⟩,2^20⟩,⟨2048,⟨.caller,512+2^20⟩,2^20⟩] blankIo).1=0 ∧
    (diskBatch (quickEnv 512) .read
      [⟨0,⟨.caller,512⟩,2^20⟩,⟨2048,⟨.caller,512+2^20⟩,2^20⟩] blankIo).1=eopnotsupp := by
  decide +kernel

end Kobox.Nvme
