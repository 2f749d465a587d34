import Mathlib.Tactic

namespace Kobox.Vfs.Iversion

open Option

/-- KB_FS_INODE_VERSION_QUERIED, the low bit of the word, and KB_FS_INODE_VERSION_INCREMENT, the
step of the counter above it. -/
def versionQueried : Nat := 1
def versionIncrement : Nat := 2
def versionWord : Nat := 2^64

inductive Call
  | maybeInc (force : Bool)
  | query
deriving DecidableEq

/-- A turn of the compare-and-swap loop: the result and the word left behind, or none where the
exchange failed and read the word again. -/
def inodeMaybeIncIversion (force : Bool) (observed word : Nat) : Option (Nat × Nat) :=
  if force=false ∧ observed%2=0 then some (0,word)
  else if word=observed then
    some (1,(observed-observed%2+versionIncrement)%versionWord)
  else none

def inodeQueryIversion (observed word : Nat) : Option (Nat × Nat) :=
  if observed%2≠0 then some (observed/2,word)
  else if word=observed then some (observed/2,observed+versionQueried)
  else none

def Call.turn : Call → Nat → Nat → Option (Nat × Nat)
  | .maybeInc force => inodeMaybeIncIversion force
  | .query => inodeQueryIversion

/-- Where a thread is: outside, before the first load, or at the head of the loop. -/
inductive Phase
  | idle
  | entered (c : Call)
  | looping (c : Call) (observed : Nat)
deriving DecidableEq

structure State where
  word : Nat
  phase : Nat → Phase

inductive Act
  | call (thread : Nat) (c : Call)
  | go (thread : Nat)

inductive Event
  | called (thread : Nat) (c : Call)
  | returned (thread : Nat) (c : Call) (value : Nat)
deriving DecidableEq

def State.enter (s : State) (t : Nat) (p : Phase) : State :=
  {s with phase := Function.update s.phase t p}

/-- Each action is one access to the shared word, or a call. -/
def step (s : State) : Act → State × Option Event
  | .call t c =>
    match s.phase t with
    | .idle => (s.enter t (.entered c),some (.called t c))
    | _ => (s,none)
  | .go t =>
    match s.phase t with
    | .idle => (s,none)
    | .entered c => (s.enter t (.looping c s.word),none)
    | .looping c observed =>
      match c.turn observed s.word with
      | some (v,w) => ({s with word := w}.enter t .idle,some (.returned t c v))
      | none => (s.enter t (.looping c s.word),none)

/-- The calls and returns of a run, in their order. -/
def events : State → List Act → List Event
  | _,[] => []
  | s,a::as => (step s a).2.toList++events (step s a).1 as

def Event.increments : Event → Bool
  | .returned _ (.maybeInc _) v => v=1
  | _ => false

section

variable {s : State} {a : Act} {as : List Act} {t : Nat} {c : Call}

/-- The counter does not pass its last value in the run. -/
def Room (s : State) (as : List Act) : Prop := s.word/2+(events s as).countP Event.increments<2^63

/-- No loop holds a word that the inode has not had yet. -/
def Behind (s : State) : Prop := ∀ t c o,s.phase t=.looping c o → o ≤ s.word

/-- A call of this thread that is under way, and every later one, reads f or more. -/
def Since (t f : Nat) (s : State) : Prop := f ≤ s.word ∧ ∀ c o,s.phase t=.looping c o → f≤o

theorem turn_maybeInc {force : Bool} {o w v w' : Nat}
    (h : (Call.maybeInc force).turn o w=some (v,w')) :
    (v=0 ∧ o%2=0 ∧ w'=w) ∨ (v=1 ∧ w=o ∧ w'=(o-o%2+2)%2^64) := by
  simp only [Call.turn,inodeMaybeIncIversion] at h
  split_ifs at h with h0 h1
  · cases h
    exact .inl ⟨rfl,h0.2,rfl⟩
  · cases h
    exact .inr ⟨rfl,h1,rfl⟩

theorem turn_query {o w v w' : Nat} (h : Call.query.turn o w=some (v,w')) :
    v=o/2 ∧ ((o%2=1 ∧ w'=w) ∨ (o%2=0 ∧ w=o ∧ w'=o+1)) := by
  simp only [Call.turn,inodeQueryIversion] at h
  split_ifs at h with h0 h1
  · cases h
    exact ⟨rfl,.inl ⟨by omega,rfl⟩⟩
  · cases h
    exact ⟨rfl,.inr ⟨by omega,h1,rfl⟩⟩

/-- What an action can do: nothing, a call, a load or a return. -/
theorem step_cases (s : State) (a : Act) : step s a=(s,none) ∨
    (∃ t c,step s a=(s.enter t (.entered c),some (.called t c))) ∨
    (∃ t c,step s a=(s.enter t (.looping c s.word),none)) ∨
    ∃ t c o v w,s.phase t=.looping c o ∧ c.turn o s.word=some (v,w) ∧
      step s a=({s with word := w}.enter t .idle,some (.returned t c v)) := by
  cases a with
  | call t c =>
    cases h : s.phase t with
    | idle => exact .inr (.inl ⟨t,c,by simp [step,h]⟩)
    | _ => exact .inl (by simp [step,h])
  | go t =>
    cases h : s.phase t with
    | idle => exact .inl (by simp [step,h])
    | entered c => exact .inr (.inr (.inl ⟨t,c,by simp [step,h]⟩))
    | looping c o =>
      cases hv : c.turn o s.word with
      | none => exact .inr (.inr (.inl ⟨t,c,by simp [step,h,hv]⟩))
      | some x => exact .inr (.inr (.inr ⟨t,c,o,x.1,x.2,h,hv,by simp [step,h,hv]⟩))

/-- The word only grows while there is room, and each increment takes one from the room. -/
theorem Room.kept (h : Room s (a::as)) : s.word≤(step s a).1.word ∧ Room (step s a).1 as := by
  simp only [Room,events,List.countP_append] at h ⊢
  obtain e | ⟨t,c,e⟩ | ⟨t,c,e⟩ | ⟨t,c,o,v,w,-,ht,e⟩ := step_cases s a
  all_goals simp only [e,toList,List.countP_nil,List.countP_singleton,
    Event.increments,State.enter] at h ⊢
  · exact ⟨le_rfl,by omega⟩
  · exact ⟨le_rfl,by simpa using h⟩
  · exact ⟨le_rfl,by omega⟩
  cases c with
  | maybeInc force =>
    obtain ⟨rfl,-,rfl⟩ | ⟨rfl,rfl,rfl⟩ := turn_maybeInc ht
    · exact ⟨le_rfl,by simpa using h⟩
    · simp only [decide_true,if_true] at h
      constructor <;> omega
  | query =>
    obtain ⟨-,⟨-,rfl⟩ | ⟨h0,rfl,rfl⟩⟩ := turn_query ht
    · exact ⟨le_rfl,by simpa using h⟩
    · constructor <;> omega

theorem step_looping {o : Nat} (h : (step s a).1.phase t=.looping c o) :
    s.phase t=.looping c o ∨ o=s.word := by
  obtain e | ⟨u,d,e⟩ | ⟨u,d,e⟩ | ⟨u,d,o',v,w,-,-,e⟩ := step_cases s a
  all_goals simp only [e,State.enter,Function.update_apply] at h
  · exact .inl h
  · split_ifs at h
    exact .inl h
  · split_ifs at h
    · cases h
      exact .inr rfl
    · exact .inl h
  · split_ifs at h
    exact .inl h

theorem Behind.kept (h : Behind s) (hr : Room s (a::as)) : Behind (step s a).1 := by
  intro t c o ho
  obtain h' | rfl := step_looping ho
  · exact (h t c o h').trans hr.kept.1
  · exact hr.kept.1

theorem Since.kept {f : Nat} (h : Since t f s) (hr : Room s (a::as)) : Since t f (step s a).1 := by
  refine ⟨h.1.trans hr.kept.1,fun c o ho => ?_⟩
  obtain h' | rfl := step_looping ho
  · exact h.2 c o h'
  · exact h.1

/-- The next of the given events in a run happens in a state that keeps what every step keeps. -/
theorem events_next {e : Event} {es : List Event} {I : State → Prop}
    (hI : ∀ s a as,I s → Room s (a::as) → I (step s a).1) (hs : I s) (hr : Room s as)
    (h : (e::es).Sublist (events s as)) :
    ∃ u a bs,I u ∧ Room u (a::bs) ∧ (step u a).2=some e ∧ es.Sublist (events (step u a).1 bs) := by
  induction as generalizing s with
  | nil => simp [events] at h
  | cons a as ih =>
    have hlater := ih (hI s a as hs hr) hr.kept.2
    simp only [events] at h
    cases he : (step s a).2 with
    | none => exact hlater (by simpa [he] using h)
    | some e' =>
      simp only [he,toList,List.singleton_append] at h
      cases h with
      | cons _ h => exact hlater h
      | cons_cons _ h => exact ⟨s,a,as,hs,hr,he,h⟩

theorem step_called {f : Nat} (hf : f ≤ s.word) (h : (step s a).2=some (.called t c)) :
    Since t f (step s a).1 := by
  obtain e | ⟨u,d,e⟩ | ⟨u,d,e⟩ | ⟨u,d,o',v,w,-,-,e⟩ := step_cases s a
  all_goals simp only [e,reduceCtorEq,some.injEq,Event.called.injEq] at h
  obtain ⟨rfl,rfl⟩ := h
  simpa [e,Since,State.enter] using hf

theorem step_returned {v : Nat} (h : (step s a).2=some (.returned t c v)) :
    ∃ o,s.phase t=.looping c o ∧ c.turn o s.word=some (v,(step s a).1.word) := by
  obtain e | ⟨u,d,e⟩ | ⟨u,d,e⟩ | ⟨u,d,o,x,w,hp,ht,e⟩ := step_cases s a
  all_goals simp only [e,reduceCtorEq,some.injEq,Event.returned.injEq] at h
  obtain ⟨rfl,rfl,rfl⟩ := h
  exact ⟨o,hp,by simpa [e,State.enter] using ht⟩

/-- A query that has returned v leaves the word marked as queried at v, or past it. -/
theorem query_marks {v : Nat} (hb : Behind s)
    (h : (step s a).2=some (.returned t .query v)) : 2*v+1≤(step s a).1.word := by
  obtain ⟨o,hp,ht⟩ := step_returned h
  have := hb _ _ _ hp
  obtain ⟨rfl,⟨h1,e⟩ | ⟨h0,-,e⟩⟩ := turn_query ht <;> omega

/-- A maybe_inc that began on a marked word ends on a later version. -/
theorem maybeInc_passes {f v : Nat} {force : Bool} (hb : Behind s) (hs : Since t (2*f+1) s)
    (hr : Room s (a::as)) (h : (step s a).2=some (.returned t (.maybeInc force) v)) :
    2*f+2≤(step s a).1.word := by
  obtain ⟨o,hp,ht⟩ := step_returned h
  have ho := hs.2 _ _ hp
  have hw := hb _ _ _ hp
  have hmono := hr.kept.1
  obtain ⟨-,h0,e⟩ | ⟨-,rfl,e⟩ := turn_maybeInc ht <;> omega

/-- A query called when the word is f or more returns the version of f or a later one. -/
theorem query_after {f v : Nat} (hf : f ≤ s.word) (hr : Room s as)
    (h : [.called t .query,.returned t .query v].Sublist (events s as)) : f/2≤v := by
  obtain ⟨s1,a1,as1,hf1,hr1,e1,h⟩ := events_next (I := fun s => f ≤ s.word)
    (fun _ _ _ h hr => h.trans hr.kept.1) hf hr h
  obtain ⟨s2,a2,as2,hs2,hr2,e2,-⟩ := events_next (fun _ _ _ => Since.kept) (step_called hf1 e1)
    hr1.kept.2 h
  obtain ⟨o,hp,ht⟩ := step_returned e2
  have ho := hs2.2 _ _ hp
  have hv := (turn_query ht).1
  omega

end

/-- A query called after another has returned v gives no smaller cookie, and a greater one when a
maybe_inc has begun and ended in between. -/
theorem change_cookies (s : State) (as : List Act) (hidle : ∀ t,s.phase t=.idle)
    (hroom : s.word/2+(events s as).countP Event.increments<2^63) :
    (∀ q u v v',[.returned q .query v,.called u .query,.returned u .query v'].Sublist
      (events s as) → v≤v') ∧
    ∀ q w u force r v v',[.returned q .query v,.called w (.maybeInc force),
      .returned w (.maybeInc force) r,.called u .query,.returned u .query v'].Sublist
      (events s as) → v<v' := by
  have hbehind : Behind s := fun t c o h => by simp [hidle t] at h
  constructor
  · intro q u v v' h
    obtain ⟨s1,a1,as1,hb1,hr1,e1,h⟩ := events_next (fun _ _ _ => Behind.kept) hbehind hroom h
    have := query_after (query_marks hb1 e1) hr1.kept.2 h
    omega
  · intro q w u force r v v' h
    obtain ⟨s1,a1,as1,hb1,hr1,e1,h⟩ := events_next (fun _ _ _ => Behind.kept) hbehind hroom h
    obtain ⟨s2,a2,as2,⟨hb2,hw2⟩,hr2,e2,h⟩ := events_next (I := fun s => Behind s ∧ 2*v+1 ≤ s.word)
      (fun _ _ _ h hr => ⟨h.1.kept hr,h.2.trans hr.kept.1⟩) ⟨hb1.kept hr1,query_marks hb1 e1⟩
      hr1.kept.2 h
    obtain ⟨s3,a3,as3,⟨hb3,hs3⟩,hr3,e3,h⟩ := events_next
      (I := fun s => Behind s ∧ Since w (2*v+1) s) (fun _ _ _ h hr => ⟨h.1.kept hr,h.2.kept hr⟩)
      ⟨hb2.kept hr2,step_called hw2 e2⟩ hr2.kept.2 h
    have := query_after (maybeInc_passes hb3 hs3 hr3 e3) hr3.kept.2 h
    omega

def fresh : State := ⟨0,fun _ => .idle⟩

/-- A query, an increment by another thread that has lost its first exchange, and a query. -/
def contendedRun : List Act :=
  [.call 1 (.maybeInc true),.go 1,.call 0 .query,.go 0,.go 0,.go 1,.call 2 (.maybeInc false),
    .go 2,.go 2,.go 1,.go 1,.call 0 .query,.go 0,.go 0]

theorem change_cookies_contended :
    events fresh contendedRun=[.called 1 (.maybeInc true),.called 0 .query,
      .returned 0 .query 0,.called 2 (.maybeInc false),.returned 2 (.maybeInc false) 1,
      .returned 1 (.maybeInc true) 1,.called 0 .query,.returned 0 .query 2] ∧ 0<2 :=
  ⟨by decide,(change_cookies fresh contendedRun (fun _ => rfl) (by decide)).2 0 2 0 false 1
    0 2 (by decide)⟩

end Kobox.Vfs.Iversion
