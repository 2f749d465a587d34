import Mathlib.Tactic

namespace Kobox.Sync

/-- The links of the entries and their wake functions, which get the key; no function is a low
pointer where there is one. -/
structure WaitList (σ : Type) where
  next : σ → Nat → Nat
  wake : Nat × Int → Nat → σ → Option (Int × σ)

def waitLowPointer (p : Nat) : Bool := p<4096 || 2^64-4096≤p

section

variable {σ : Type} (m : WaitList σ) (key : Nat × Int) (head : Nat) (nr : Int)

def callWake (entry : Nat) (s : σ) : Int × σ := (m.wake key entry s).getD (1,s)

/-- The loop of `kb_wake_up_waitqueue`: the entries it gets to and the results there. -/
def wakeLoop : Nat → Nat → Int → σ → List (Nat × Int)
  | 0,_,_,_ => []
  | fuel+1,entry,woken,s =>
    if waitLowPointer entry ∨ entry=head then []
    else
      let next := m.next s entry
      let (result,t) := callWake m key entry s
      (entry,result)::
        if 0 < result then if 0<nr ∧ nr≤woken+1 then [] else wakeLoop fuel next (woken+1) t
        else wakeLoop fuel next woken t

def kbWakeUpWaitqueue (fuel : Nat) (s : σ) : List (Nat × Int) :=
  wakeLoop m key head nr fuel (m.next s head) 0 s

/-- Every entry in order, up to the one with which enough of those that count are woken. -/
def wakeInOrder (counts : Nat → Bool) : List Nat → Int → σ → List (Nat × Int)
  | [],_,_ => []
  | e::es,woken,s =>
    let (result,t) := callWake m key e s
    (e,result)::
      if 0 < result ∧ counts e then if nr≤woken+1 then [] else wakeInOrder counts es (woken+1) t
      else wakeInOrder counts es woken t

/-- The entries from a link on, back to the head. -/
def Linked (s : σ) : List Nat → Nat → Prop
  | [],p => p=head
  | e::es,p => p=e ∧ waitLowPointer e=false ∧ e≠head ∧ e∉es ∧ Linked s es (m.next s e)

/-- Wake functions change at most the link of their entry and the one to it. -/
def Unlinks : Prop :=
  ∀ key e s r t,m.wake key e s=some (r,t) → ∀ a,a≠e → m.next s a≠e → m.next t a=m.next s a

/-- The results where every entry is called, in order. -/
def wakeResults : List Nat → σ → List (Nat × Int)
  | [],_ => []
  | e::es,s =>
    let (result,t) := callWake m key e s
    (e,result)::wakeResults es t

/-- The nr-th wake is that of the last entry, or all up to it are exclusive. -/
def ExclusiveFirst (exclusive : Nat → Bool) (results : List (Nat × Int)) : Prop :=
  ∀ a b,results=a++b → a.countP (0 < ·.2)=nr → b=[] ∨ ∀ c∈a,0<c.2 → exclusive c.1=true

/-- What comes before the first exclusive wake, and that one, is called. -/
def CallsUpTo (exclusive : Nat → Bool) (results calls : List (Nat × Int)) : Prop :=
  ∀ a c b,results=a++c::b → (∀ d∈a,0<d.2 → exclusive d.1=false) → c∈calls

def kbVarWaitqueue (heads : Nat → Nat) (var : Nat) : Nat :=
  let value := var ^^^ var>>>17
  heads ((value ^^^ value>>>9) &&& 255)

def kbBitWaitqueue (heads : Nat → Nat) (word : Nat) (bit : Int) : Nat :=
  kbVarWaitqueue heads (word ^^^ bit.toNat*0x9e3779b97f4a7c15%2^64)

def kbWakeUpBit (heads : Nat → Nat) (word : Nat) (bit : Int) (fuel : Nat) (s : σ) : List (Nat × Int) :=
  if word=0 ∨ bit<0 ∨ 64≤bit then []
  else kbWakeUpWaitqueue m (word,bit) (kbBitWaitqueue heads word bit) 1 fuel s

def kbWakeUpVar (heads : Nat → Nat) (var fuel : Nat) (s : σ) : List (Nat × Int) :=
  if var=0 then [] else kbWakeUpWaitqueue m (var,-1) (kbVarWaitqueue heads var) 1 fuel s

variable {m key head nr} {es : List Nat} {s : σ} {p : Nat}

theorem Linked.keep {t : σ} {e : Nat} (hl : Linked m head s es p) (he : e≠head) (hes : e∉es)
    (ht : ∀ a,a≠e → m.next s a≠e → m.next t a=m.next s a) : Linked m head t es p := by
  induction es generalizing p with
  | nil => exact hl
  | cons x xs ih =>
    obtain ⟨hp,hlow,hx,hnot,hrest⟩ := hl
    have hnext : m.next s x≠e := by
      cases xs with
      | nil => exact fun h => he (h.symm.trans hrest)
      | cons y ys => exact fun h => hes (by simp [← h,hrest.1])
    refine ⟨hp,hlow,hx,hnot,?_⟩
    rw [ht x (fun h => hes (by simp [h])) hnext]
    exact ih hrest fun h => hes (List.mem_cons_of_mem _ h)

theorem callWake_keep (hm : Unlinks m) (e a : Nat) (ha : a≠e) (hn : m.next s a≠e) :
    m.next (callWake m key e s).2 a=m.next s a := by
  unfold callWake
  cases hw : m.wake key e s with
  | none => rfl
  | some rt => exact hm key e s rt.1 rt.2 hw a ha hn

theorem wakeLoop_eq (hm : Unlinks m) (hnr : 0<nr) {fuel : Nat} {woken : Int}
    (hl : Linked m head s es p) (hf : es.length<fuel) :
    wakeLoop m key head nr fuel p woken s=wakeInOrder m key nr (fun _ => true) es woken s := by
  induction es generalizing p s fuel woken with
  | nil =>
    cases fuel with
    | zero => cases hf
    | succ fuel => simp [wakeLoop,wakeInOrder,show p=head from hl]
  | cons e es ih =>
    cases fuel with
    | zero => cases hf
    | succ fuel =>
      obtain ⟨rfl,hlow,hh,hnot,hrest⟩ := hl
      have hkeep := hrest.keep hh hnot (@callWake_keep _ _ key _ hm p)
      have hih := fun w => @ih _ _ fuel w hkeep (by simpa using hf)
      simp [wakeLoop,wakeInOrder,hlow,hh,hnr,hih]

theorem forall_split_cons {α : Type} {P : List α → List α → Prop} {x : α} {xs : List α}
    (h : P [] (x::xs)) : (∀ a b,x::xs=a++b → P a b) ↔ ∀ a b,xs=a++b → P (x::a) b := by
  refine ⟨fun hp a b hs => hp _ _ (hs ▸ rfl),fun hp a b hs => ?_⟩
  cases a with
  | nil => exact (show x::xs=b from hs) ▸ h
  | cons y a =>
    obtain ⟨rfl,rfl⟩ := List.cons.inj hs
    exact hp a b rfl

/-- Counting all wakes stops where counting some of them does only if it stops at the end, or has
counted the same. -/
theorem wakeInOrder_iff {exclusive : Nat → Bool} {woken counted : Int} (hle : counted≤woken)
    (hlt : woken<nr) :
    wakeInOrder m key nr (fun _ => true) es woken s=wakeInOrder m key nr exclusive es counted s ↔
      ∀ a b,wakeResults m key es s=a++b → woken+a.countP (0 < ·.2)=nr →
        b=[] ∨ woken=counted ∧ ∀ c∈a,0<c.2 → exclusive c.1=true := by
  induction es generalizing woken counted s with
  | nil => simp [wakeInOrder,wakeResults]
  | cons e es ih =>
    have hnil : ∀ counted t,[]=wakeInOrder m key nr exclusive es counted t ↔ es=[] := by
      intro counted t
      cases es <;> simp [wakeInOrder]
    have hall : ∀ t,nr≤woken+1 → (es=[] ↔ ∀ a b,wakeResults m key es t=a++b →
        woken+1+a.countP (0 < ·.2)=nr → b=[]) := by
      intro t hstop
      refine ⟨fun h a b hs _ => ?_,fun h => ?_⟩
      · subst h
        exact (List.append_eq_nil_iff.mp hs.symm).2
      · cases es with
        | nil => rfl
        | cons => cases h [] _ rfl (by simp; omega)
    rw [wakeResults,forall_split_cons fun h0 => absurd h0 (by simp; omega)]
    by_cases hr : 0<(callWake m key e s).1
    · have hcount : ∀ a : List (Nat × Int),
          ((((e,(callWake m key e s).1)::a).countP (0 < ·.2) : Nat) : Int)=1+a.countP (0 < ·.2) := by
        simp [hr,add_comm]
      simp only [hcount,← add_assoc,List.forall_mem_cons,hr,true_imp_iff]
      by_cases hx : exclusive e=true
      · by_cases hstop : nr≤woken+1
        · by_cases heq : woken=counted
          · have hrest : ∀ a : List (Nat × Int),woken+1+a.countP (0 < ·.2)=nr →
                ∀ c∈a,0<c.2 → exclusive c.1=true := by
              intro a ha c hc h0
              have hpos : 0<a.countP (0 < ·.2) := List.countP_pos_iff.mpr ⟨c,hc,decide_eq_true h0⟩
              omega
            refine iff_of_true (by simp [wakeInOrder,hr,hx,heq ▸ hstop,hstop]) fun a b _ ha => ?_
            exact .inr ⟨heq,hx,hrest a ha⟩
          · have hmore : ¬nr ≤ counted+1 := by omega
            simpa [wakeInOrder,hr,hx,hstop,hmore,heq,hnil] using hall _ hstop
        · have hmore : ¬nr ≤ counted+1 := by omega
          have h := @ih (callWake m key e s).2 (woken+1) (counted+1) (by omega) (by omega)
          simp [wakeInOrder,hr,hx,hstop,hmore,h]
      · by_cases hstop : nr≤woken+1
        · simpa [wakeInOrder,hr,hx,hstop,hnil] using hall _ hstop
        · have h := @ih (callWake m key e s).2 (woken+1) counted (by omega) (by omega)
          have hne : woken+1≠counted := by omega
          simp [wakeInOrder,hr,hx,hstop,h,hne]
    · have h := ih (s := (callWake m key e s).2) hle hlt
      simp [wakeInOrder,hr,h]

theorem wakeInOrder_one {exclusive : Nat → Bool} :
    CallsUpTo exclusive (wakeResults m key es s) (wakeInOrder m key 1 exclusive es 0 s) := by
  intro a c b hs ha
  induction es generalizing s a with
  | nil => simp [wakeResults] at hs
  | cons e es ih =>
    rw [wakeInOrder]
    cases a with
    | nil => exact (List.cons.inj hs).1 ▸ List.mem_cons_self
    | cons d a =>
      obtain ⟨rfl,hrest⟩ := List.cons.inj hs
      have hd := ha _ List.mem_cons_self
      refine List.mem_cons_of_mem _ ?_
      rw [if_neg fun h => by simp [hd h.1] at h]
      exact ih a hrest fun d hd => ha d (List.mem_cons_of_mem _ hd)

/-- The wake functions called are those up to the nr-th exclusive wake, if the nr-th wake is that of
the last entry or all up to it are exclusive, and only then. So with one wake to make for a bit or a
variable all up to the first exclusive wake are called. -/
theorem wake_up_exclusive_iff (hm : Unlinks m) (exclusive : Nat → Bool) (heads : Nat → Nat) {fuel : Nat}
    (hf : es.length<fuel) :
    (0<nr → Linked m head s es (m.next s head) →
      (kbWakeUpWaitqueue m key head nr fuel s=wakeInOrder m key nr exclusive es 0 s ↔
        ExclusiveFirst nr exclusive (wakeResults m key es s))) ∧
      (∀ word bit,word≠0 → 0≤bit → bit<64 →
        Linked m (kbBitWaitqueue heads word bit) s es (m.next s (kbBitWaitqueue heads word bit)) →
        ExclusiveFirst 1 exclusive (wakeResults m (word,bit) es s) →
        CallsUpTo exclusive (wakeResults m (word,bit) es s) (kbWakeUpBit m heads word bit fuel s)) ∧
      ∀ var,var≠0 →
        Linked m (kbVarWaitqueue heads var) s es (m.next s (kbVarWaitqueue heads var)) →
        ExclusiveFirst 1 exclusive (wakeResults m (var,-1) es s) →
        CallsUpTo exclusive (wakeResults m (var,-1) es s) (kbWakeUpVar m heads var fuel s) := by
  have hiff : ∀ key head nr,0<nr → Linked m head s es (m.next s head) →
      (kbWakeUpWaitqueue m key head nr fuel s=wakeInOrder m key nr exclusive es 0 s ↔
        ExclusiveFirst nr exclusive (wakeResults m key es s)) := by
    intro key head nr hnr hl
    rw [kbWakeUpWaitqueue,wakeLoop_eq hm hnr hl hf,wakeInOrder_iff le_rfl hnr]
    simp [ExclusiveFirst]
  refine ⟨hiff key head nr,fun word bit hw h0 h64 hl hx => ?_,fun var hv hl hx => ?_⟩
  · rw [kbWakeUpBit,if_neg (by omega),(hiff _ _ 1 one_pos hl).mpr hx]
    exact wakeInOrder_one
  · rw [kbWakeUpVar,if_neg hv,(hiff _ _ 1 one_pos hl).mpr hx]
    exact wakeInOrder_one

end

section

variable {σ : Type} (waited : Nat → Nat × Int) (autoremove : Nat → σ → Int × σ)

def kbVarWakeFunction (key : Nat × Int) (entry : Nat) (s : σ) : Int × σ :=
  if waited entry≠key then (0,s) else autoremove entry s

def kbBitWakeFunction (bitTest : Nat × Int → σ → Bool) (key : Nat × Int) (entry : Nat) (s : σ) :
    Int × σ :=
  if waited entry≠key ∨ bitTest key s then (0,s) else autoremove entry s

end

/-- Three waiters behind the head 4096, one for a variable and two for a bit. -/
def bitWaiters : WaitList Unit where
  next _ a := if a=16384 then 4096 else a+4096
  wake key e s :=
    some (if e=8192 then kbVarWakeFunction (fun _ => (7,-1)) (fun _ s => (1,s)) key e s
      else kbBitWakeFunction (fun _ => (7,0)) (fun _ s => (1,s)) (fun _ _ => false) key e s)

theorem bitWaiters_linked : Linked bitWaiters 4096 () [8192,12288,16384] 8192 := by
  simp [Linked,bitWaiters,waitLowPointer]

theorem wake_up_exclusive_iff_bit :
    kbWakeUpWaitqueue bitWaiters (7,0) 4096 1 4 ()=[(8192,0),(12288,1)] ∧
      (12288,1)∈kbWakeUpBit bitWaiters (fun _ => 4096) 7 0 4 () := by
  obtain ⟨hcalls,hbit,-⟩ := @wake_up_exclusive_iff _ bitWaiters (7,0) 4096 1 [8192,12288,16384] ()
    (fun _ _ _ _ _ _ _ _ _ => rfl) (fun e => e=12288) (fun _ => 4096) 4 (by decide)
  have hx : ExclusiveFirst 1 (fun e => e=12288) [(8192,0),(12288,1),(16384,1)] := by
    rintro (_|⟨x,_|⟨y,_|⟨z,a⟩⟩⟩) b hs hcount
    · simp at hcount
    · obtain ⟨rfl,-⟩ := List.cons.inj hs
      simp at hcount
    · obtain ⟨rfl,rfl,-⟩ : (8192,0)=x ∧ (12288,1)=y ∧ [(16384,1)]=b := by simpa using hs
      simp
    · exact .inl (by simp_all)
  exact ⟨(hcalls one_pos bitWaiters_linked).mpr hx,hbit 7 0 (by decide) (by decide) (by decide)
    bitWaiters_linked hx [(8192,0)] (12288,1) [(16384,1)] rfl (by simp)⟩

/-- None of them is exclusive, and still only the first of the two is called. -/
theorem second_waiter_left :
    kbWakeUpBit bitWaiters (fun _ => 4096) 7 0 4 ()=[(8192,0),(12288,1)] ∧
      wakeInOrder bitWaiters (7,0) 1 (fun _ => false) [8192,12288,16384] 0 ()=
        [(8192,0),(12288,1),(16384,1)] := by
  decide

end Kobox.Sync
