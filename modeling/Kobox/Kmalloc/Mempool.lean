import Kobox.Framework.Run

namespace Kobox.Mempool

open List

/-- A pool with its reserve, the last element first; 0 is the null pointer. -/
structure Pool where
  live : Bool
  minimum : Nat
  elements : List Nat

/-- What a pool is given by its allocator and what it frees there. -/
inductive Traffic
  | given (element : Nat)
  | freed (element : Nat)

def mempoolCallAlloc (answer : Nat) : Nat × List Traffic :=
  (answer,if answer=0 then [] else [.given answer])

def mempoolCallFree (element : Nat) : List Traffic := if element=0 then [] else [.freed element]

def mempoolDestroy (s : Pool) : Pool × List Traffic :=
  if s.live then ({ s with live := false,elements := [] },s.elements.flatMap mempoolCallFree)
  else (s,[])

/-- The loop of `kb_mempool_create_node`, with n elements to go. -/
def mempoolFill (answers : Nat → Nat) : Nat → Pool → Pool × List Traffic
  | 0,s => (s,[])
  | n+1,s =>
    let (e,asked) := mempoolCallAlloc (answers n)
    let (t,rest) :=
      if e=0 then mempoolDestroy s else mempoolFill answers n { s with elements := e::s.elements }
    (t,asked++rest)

def mempoolCreateNode (minimum : Int) (room : Bool) (answers : Nat → Nat) (s : Pool) :
    Pool × List Traffic :=
  if minimum<0 ∨ !room then (s,[])
  else mempoolFill answers minimum.toNat { s with live := true,minimum := minimum.toNat }

/-- The element handed out comes first. -/
def mempoolAlloc (answer : Nat) (s : Pool) : Nat × Pool × List Traffic :=
  if !s.live then (0,s,[])
  else
    let (e,asked) := mempoolCallAlloc answer
    if e≠0 then (e,s,asked)
    else
      match s.elements with
      | e::es => (e,{ s with elements := es },asked)
      | [] => (0,s,asked)

def mempoolFree (e : Nat) (s : Pool) : Pool × List Traffic :=
  if e=0 ∨ !s.live then (s,[])
  else if s.elements.length<s.minimum then ({ s with elements := e::s.elements },[])
  else (s,mempoolCallFree e)

/-- Each call with the answers of the allocator, those of a creation by what is still missing. -/
inductive Call
  | create (minimum : Int) (room : Bool) (answers : Nat → Nat)
  | alloc (answer : Nat)
  | free (element : Nat)
  | destroy

/-- A pool, what passed between it and its allocator, and what its users hold. -/
structure Account where
  pool : Pool
  log : List Traffic
  out : List Nat

def Account.book (a : Account) (out : List Nat) (r : Pool × List Traffic) : Account :=
  ⟨r.1,a.log++r.2,out⟩

def step (w : Nat → Account) (c : Nat × Call) : Nat → Account :=
  let a := w c.1
  Function.update w c.1 <|
    match c.2 with
    | .create minimum room answers => a.book a.out (mempoolCreateNode minimum room answers a.pool)
    | .alloc answer =>
      let r := mempoolAlloc answer a.pool
      a.book (if r.1=0 then a.out else r.1::a.out) r.2
    | .free e => a.book (a.out.erase e) (mempoolFree e a.pool)
    | .destroy => a.book a.out (mempoolDestroy a.pool)

/-- A pool is made where there is none, and users free what they have while the pool is there. -/
def Handed (w : Nat → Account) (c : Nat × Call) : Prop :=
  match c.2 with
  | .create _ _ _ => (w c.1).pool.live=false
  | .free e => (w c.1).pool.live=true ∧ e∈(w c.1).out
  | _ => True

def given (log : List Traffic) : List Nat :=
  log.filterMap fun | .given e => some e | .freed _ => none

def freed (log : List Traffic) : List Nat :=
  log.filterMap fun | .given _ => none | .freed e => some e

@[simp] theorem given_append (l m : List Traffic) : given (l++m)=given l++given m := filterMap_append

@[simp] theorem freed_append (l m : List Traffic) : freed (l++m)=freed l++freed m := filterMap_append

theorem frees_freed {es : List Nat} (h : ∀ e∈es,e≠0) :
    given (es.flatMap mempoolCallFree)=[] ∧ freed (es.flatMap mempoolCallFree)=es := by
  induction es with
  | nil => exact ⟨rfl,rfl⟩
  | cons e es ih =>
    obtain ⟨hg,hf⟩ := ih fun x hx => h x (mem_cons_of_mem _ hx)
    rw [flatMap_cons,given_append,freed_append,hg,hf,mempoolCallFree,if_neg (h e mem_cons_self)]
    exact ⟨rfl,rfl⟩

/-- Reserve, users and allocator have together what the allocator gave. -/
structure Conserved (a : Account) : Prop where
  placed : (a.pool.elements++(a.out++freed a.log)).Perm (given a.log)
  nonzero : ∀ e∈given a.log,e≠0
  reserve : a.pool.elements.length ≤ a.pool.minimum
  gone : a.pool.live=false → a.pool.elements=[]

variable {a : Account} {s : Pool}

theorem Conserved.element_nonzero (h : Conserved a) {e : Nat} (he : e∈a.pool.elements) : e≠0 :=
  h.nonzero e (h.placed.mem_iff.mp (mem_append_left _ he))

/-- What a call moves between reserve, users and allocator adds up. -/
theorem Conserved.book (h : Conserved a) {out : List Nat} {log : List Traffic}
    (hp : (s.elements++(out++freed log)).Perm (given log++(a.pool.elements++a.out)))
    (hz : ∀ e∈given log,e≠0) (hr : s.elements.length ≤ s.minimum)
    (hg : s.live=false → s.elements=[]) : Conserved (a.book out (s,log)) := by
  refine ⟨?_,?_,hr,hg⟩
  · have hnew := hp.append_right (freed a.log)
    simp only [append_assoc] at hnew
    simp only [Account.book,given_append,freed_append]
    calc
      _ ~ s.elements++(out++(freed log++freed a.log)) := (perm_append_comm.append_left _).append_left _
      _ ~ given log++given a.log := hnew.trans (h.placed.append_left _)
      _ ~ given a.log++given log := perm_append_comm
  · intro e he
    exact (mem_append.mp (given_append _ _ ▸ he)).elim (h.nonzero e) (hz e)

theorem Conserved.kept (h : Conserved a) {out : List Nat}
    (hp : (s.elements++out).Perm (a.pool.elements++a.out)) (hr : s.elements.length ≤ s.minimum)
    (hg : s.live=false → s.elements=[]) : Conserved (a.book out (s,[])) :=
  h.book (by simpa [freed,given] using hp) (by simp [given]) hr hg

theorem Conserved.destroy (h : Conserved a) : Conserved (a.book a.out (mempoolDestroy a.pool)) := by
  unfold mempoolDestroy
  split
  · obtain ⟨hg,hf⟩ := frees_freed fun _ => h.element_nonzero
    refine h.book ?_ (by simp [hg]) (Nat.zero_le _) fun _ => rfl
    simpa [hg,hf] using perm_append_comm
  · exact h.kept (Perm.refl _) h.reserve h.gone

theorem Conserved.fill {answers : Nat → Nat} {n : Nat} (h : Conserved a) (hl : a.pool.live=true)
    (hn : a.pool.elements.length+n ≤ a.pool.minimum) :
    Conserved (a.book a.out (mempoolFill answers n a.pool)) := by
  induction n generalizing a with
  | zero => exact h.kept (Perm.refl _) h.reserve h.gone
  | succ n ih =>
    by_cases he : answers n=0
    · simpa [mempoolFill,mempoolCallAlloc,he] using h.destroy
    · let s : Pool := { a.pool with elements := answers n::a.pool.elements }
      have hb : Conserved (a.book a.out (s,[.given (answers n)])) :=
        h.book (by simp [s,given,freed]) (by simpa [given] using he) (by simp [s]; omega) (by simp [s,hl])
      simpa [mempoolFill,mempoolCallAlloc,he,Account.book] using
        ih hb hl (by simp [Account.book,s]; omega)

theorem step_conserved (w : Nat → Account) (c : Nat × Call) (h : ∀ b,Conserved (w b))
    (hc : Handed w c) (b : Nat) : Conserved (step w c b) := by
  obtain ⟨a,c⟩ := c
  by_cases ha : b=a
  · subst ha
    have hb := h b
    have hsame := hb.kept (Perm.refl _) hb.reserve hb.gone
    simp only [step,Function.update_self]
    cases c with
    | create minimum room answers =>
      have hempty : (w b).pool.elements=[] := hb.gone hc
      simp only [mempoolCreateNode]
      split
      · exact hsame
      · let s : Pool := { (w b).pool with live := true,minimum := minimum.toNat }
        have hs : Conserved ⟨s,(w b).log,(w b).out⟩ :=
          ⟨hb.placed,hb.nonzero,by simp [s,hempty],fun h0 => by simp [s] at h0⟩
        exact hs.fill rfl (by simp [s,hempty])
    | alloc answer =>
      simp only [mempoolAlloc,mempoolCallAlloc]
      split
      · exact hsame
      · by_cases he : answer=0
        · simp only [he,ne_eq,not_true_eq_false,if_false,if_true]
          split
          · next e es hes =>
            have hr := hb.reserve
            rw [hes] at hr
            rw [if_neg (hb.element_nonzero (hes ▸ mem_cons_self))]
            exact hb.kept (hes ▸ perm_middle) (Nat.le_of_succ_le hr) (by simp_all)
          · exact hsame
        · simp only [he,ne_eq,not_false_eq_true,if_true,if_false]
          exact hb.book (by simp [given,freed]) (by simpa [given] using he)
            hb.reserve hb.gone
    | free e =>
      obtain ⟨hl,hout⟩ := hc
      have he : e≠0 :=
        hb.nonzero e (hb.placed.mem_iff.mp (mem_append_right _ (mem_append_left _ hout)))
      have hperm := (perm_cons_erase hout).symm.append_left (w b).pool.elements
      simp only [mempoolFree,mempoolCallFree,he,hl,Bool.not_true,Bool.false_eq_true,or_self,if_false]
      split
      · exact hb.kept (perm_middle.symm.trans hperm) (by simpa using ‹_›) (by simp)
      · refine hb.book ?_ (by simp [given]) hb.reserve hb.gone
        exact ((perm_append_singleton _ _).append_left _).trans hperm
    | destroy => exact hb.destroy
  · simpa [step,ha] using h b

def noPool : Nat → Account := fun _ => ⟨⟨false,0,[]⟩,[],[]⟩

/-- Whatever the allocator gave is in one place, and a pool's end gives its reserve back. -/
theorem mempool_conserved (calls : List (Nat × Call)) (h : Meets step Handed noPool calls) (n a : Nat) :
    let s := runAll step noPool (calls.take n) a
    (s.pool.elements++(s.out++freed s.log)).Perm (given s.log) ∧
      s.pool.elements.length ≤ s.pool.minimum ∧
      (s.pool.live=true → (mempoolDestroy s.pool).1.elements=[] ∧
        freed (mempoolDestroy s.pool).2=s.pool.elements) := by
  have hs := runAll_invariant (I := fun w => ∀ a,Conserved (w a)) step_conserved
    (fun _ => ⟨Perm.refl _,by simp [noPool,given],le_rfl,fun _ => rfl⟩) (h.take n) a
  refine ⟨hs.placed,hs.reserve,fun hl => ?_⟩
  rw [mempoolDestroy,if_pos hl]
  exact ⟨rfl,(frees_freed fun _ => hs.element_nonzero).2⟩

/-- Pool 1 answers from its reserve and frees what it has no room for; pool 2 is not made. -/
def failures : List (Nat × Call) :=
  [(1,.create 2 true fun n => n+8),(1,.alloc 0),(1,.alloc 30),(1,.free 30),(1,.free 8),
    (2,.create 2 true fun n => if n=0 then 0 else 7)]

theorem mempool_conserved_failures :
    let s := runAll step noPool failures 1
    (s.pool.elements++(s.out++freed s.log)).Perm (given s.log) ∧ s.pool.elements=[30,9] ∧
      freed s.log=[8] ∧ freed (mempoolDestroy s.pool).2=[30,9] ∧
      freed (runAll step noPool failures 2).log=[7] := by
  have hmeets : Meets step Handed noPool failures :=
    ⟨rfl,trivial,trivial,⟨rfl,by decide⟩,⟨rfl,by decide⟩,rfl,trivial⟩
  have h := mempool_conserved failures hmeets 6 1
  exact ⟨h.1,rfl,rfl,(h.2.2 rfl).2,rfl⟩

end Kobox.Mempool
