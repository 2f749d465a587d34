import Mathlib.Tactic

namespace Kobox.Block

open List Function

/-- One queue of a tag set: `nr_tags`, `next_tag` and the requests by tag. -/
structure TagRow where
  nrTags : Nat
  nextTag : Nat
  rqs : Nat → Option Nat

def wrapTag (n tag : Nat) : Nat := if tag=0 ∨ n≤tag then 1 else tag

def scanTags (n : Nat) (rqs : Nat → Option Nat) : Nat → Nat → Option Nat
  | 0,_ => none
  | k+1,tag =>
    if rqs (wrapTag n tag)=none then some (wrapTag n tag) else scanTags n rqs k (wrapTag n tag+1)

/-- `kb_block_subsystem_tagset_alloc_tag`; none is `UINT32_MAX`. -/
def tagsetAllocTag (s : TagRow) : Option Nat × TagRow :=
  if s.nrTags≤1 then (some 0,s)
  else
    match scanTags s.nrTags s.rqs (s.nrTags-1) s.nextTag with
    | none => (none,s)
    | some tag => (some tag,{ s with nextTag := if s.nrTags≤tag+1 then 1 else tag+1 })

/-- A request of none is `NULL`. -/
def tagsetBindRequest (tag : Nat) (request : Option Nat) (s : TagRow) : TagRow :=
  if s.nrTags≤tag then s else { s with rqs := update s.rqs tag request }

/-- The tags that requests get one after the other, each bound to its own. -/
def allocAndBind (s : TagRow) : List Nat → List (Option Nat)
  | [] => []
  | r::rs =>
    match tagsetAllocTag s with
    | (none,t) => none::allocAndBind t rs
    | (some tag,t) => some tag::allocAndBind (tagsetBindRequest tag (some r) t) rs

section

variable {n tag k : Nat} {rqs : Nat → Option Nat}

theorem wrapTag_range (hn : 2≤n) (tag : Nat) : 1≤wrapTag n tag ∧ wrapTag n tag<n := by
  unfold wrapTag
  split <;> omega

theorem scanTags_eq (hn : 2≤n) : scanTags n rqs k tag=
    ((range k).find? fun j => rqs ((wrapTag n tag-1+j)%(n-1)+1)=none).map
      fun j => (wrapTag n tag-1+j)%(n-1)+1 := by
  induction k generalizing tag with
  | zero => rfl
  | succ k ih =>
    obtain ⟨hl,hu⟩ := wrapTag_range hn tag
    have hself : (wrapTag n tag-1+0)%(n-1)+1=wrapTag n tag := by
      rw [Nat.add_zero,Nat.mod_eq_of_lt (by omega)]
      omega
    have hshift : ∀ j,(wrapTag n (wrapTag n tag+1)-1+j)%(n-1)=(wrapTag n tag-1+(j+1))%(n-1) := by
      intro j
      by_cases h : n≤wrapTag n tag+1
      · have he : wrapTag n tag-1+(j+1)=n-1+j := by omega
        rw [wrapTag,if_pos (Or.inr h),he,Nat.add_mod_left]
        simp
      · rw [wrapTag,if_neg (by omega)]
        congr 1
        omega
    rw [scanTags,range_succ_eq_map,find?_cons,hself,ih]
    by_cases h : rqs (wrapTag n tag)=none
    · simpa [h] using hself.symm
    · simp [h,hshift,find?_map,comp_def]

theorem scanTags_first (hn : 2≤n) {found : Nat} (h : scanTags n rqs k tag=some found) :
    ∃ j<k,found=(wrapTag n tag-1+j)%(n-1)+1 ∧ rqs found=none ∧
      ∀ i<j,rqs ((wrapTag n tag-1+i)%(n-1)+1)≠none := by
  rw [scanTags_eq hn] at h
  obtain ⟨j,hj,rfl⟩ := Option.map_eq_some_iff.mp h
  obtain ⟨hfree,hlt,hbefore⟩ := find?_range_eq_some.mp hj
  exact ⟨j,mem_range.mp hlt,rfl,by simpa using hfree,fun i hi => by simpa using hbefore i hi⟩

theorem scanTags_none (hn : 2≤n) (h : scanTags n rqs (n-1) tag=none) {t : Nat} (hl : 1≤t)
    (hu : t<n) : rqs t≠none := by
  rw [scanTags_eq hn,Option.map_eq_none_iff,find?_eq_none] at h
  have hw := wrapTag_range hn tag
  -- the turn at which the scan gets to t
  have hturn : (wrapTag n tag-1+(t-1+(n-1-(wrapTag n tag-1)))%(n-1))%(n-1)+1=t := by
    rw [Nat.add_mod_mod,show wrapTag n tag-1+(t-1+(n-1-(wrapTag n tag-1)))=t-1+(n-1) by omega,
      Nat.add_mod_right,Nat.mod_eq_of_lt (by omega)]
    omega
  have ht := h _ (mem_range.mpr (Nat.mod_lt (t-1+(n-1-(wrapTag n tag-1))) (by omega)))
  rw [hturn] at ht
  simpa using ht

/-- All tags in the order in which a scan from this cursor comes to them. -/
def tagsFrom (n tag : Nat) : List Nat := (range (n-1)).map fun j => (wrapTag n tag-1+j)%(n-1)+1

def unboundFrom (n : Nat) (rqs : Nat → Option Nat) (tag : Nat) : List Nat :=
  (tagsFrom n tag).filter fun t => rqs t=none

theorem scanTags_unboundFrom (hn : 2≤n) :
    scanTags n rqs (n-1) tag=(unboundFrom n rqs tag).head? := by
  rw [scanTags_eq hn,unboundFrom,head?_filter,tagsFrom,find?_map]
  rfl

theorem tagsFrom_perm (hn : 2≤n) (tag : Nat) : (tagsFrom n tag).Perm (range' 1 (n-1)) := by
  have hw := wrapTag_range hn tag
  have hnodup : (tagsFrom n tag).Nodup := by
    refine nodup_range.map_on fun i hi j hj he => ?_
    have hmod : i≡j [MOD n-1] :=
      Nat.ModEq.add_left_cancel' (wrapTag n tag-1) (Nat.succ_injective he)
    exact hmod.eq_of_lt_of_lt (mem_range.mp hi) (mem_range.mp hj)
  have hsub : tagsFrom n tag⊆range' 1 (n-1) := by
    intro t ht
    obtain ⟨j,-,rfl⟩ := mem_map.mp ht
    have := Nat.mod_lt (wrapTag n tag-1+j) (show 0<n-1 by omega)
    exact mem_range'_1.mpr (by omega)
  exact (hnodup.subperm hsub).perm_of_length_le (by simp [tagsFrom])

theorem unboundFrom_nodup (hn : 2≤n) : (unboundFrom n rqs tag).Nodup :=
  ((tagsFrom_perm hn tag).nodup_iff.mpr nodup_range').filter _

theorem mem_unboundFrom (hn : 2≤n) {t : Nat} :
    t∈unboundFrom n rqs tag ↔ (1≤t ∧ t<n) ∧ rqs t=none := by
  rw [unboundFrom,mem_filter,(tagsFrom_perm hn tag).mem_iff,mem_range'_1,decide_eq_true_eq,
    show 1+(n-1)=n by omega]

theorem length_unboundFrom (hn : 2≤n) :
    (unboundFrom n rqs tag).length=(range' 1 (n-1)).countP fun t => rqs t=none := by
  rw [unboundFrom,← countP_eq_length_filter]
  exact (tagsFrom_perm hn tag).countP_eq _

/-- A scan from behind a tag comes to this tag last. -/
theorem tagsFrom_next (hn : 2≤n) {a b : List Nat} {t : Nat} (h : tagsFrom n tag=a++t::b) :
    tagsFrom n (t+1)=b++(a++[t]) := by
  have hlen : a.length<n-1 := by
    have := congrArg length h
    simp [tagsFrom] at this
    omega
  have hrot : tagsFrom n (t+1)=(tagsFrom n tag).rotate (a.length+1) := by
    have ht : t=(wrapTag n tag-1+a.length)%(n-1)+1 := by
      have := congrArg (·[a.length]?) h
      simpa [tagsFrom,hlen] using this.symm
    apply ext_getElem
    · simp [tagsFrom]
    intro i hi _
    have hwrap : (wrapTag n (t+1)-1)%(n-1)=t%(n-1) := by
      unfold wrapTag
      split
      · next hbig =>
        have := Nat.mod_lt (wrapTag n tag-1+a.length) (show 0<n-1 by omega)
        simp [show t=n-1 by omega]
      · rfl
    have hstep : (t+i)%(n-1)=(wrapTag n tag-1+(i+(a.length+1)))%(n-1) := by
      rw [ht,Nat.add_assoc,Nat.mod_add_mod]
      congr 1
      omega
    simp only [tagsFrom,getElem_map,getElem_range,getElem_rotate,length_map,length_range,
      Nat.add_left_inj]
    rw [← Nat.mod_add_mod,hwrap,Nat.mod_add_mod,hstep,Nat.add_mod_mod]
  rw [hrot,h,show a++t::b=a++[t]++b by simp,← rotate_append_length_eq (a++[t]) b]
  simp

theorem unboundFrom_next (hn : 2≤n) {t : Nat} {rest : List Nat}
    (h : unboundFrom n rqs tag=t::rest) : unboundFrom n rqs (t+1)=rest++[t] := by
  obtain ⟨a,b,htags,hbound,hfree,hrest⟩ := filter_eq_cons_iff.mp h
  rw [unboundFrom,tagsFrom_next hn htags,filter_append,filter_append,hrest,
    filter_eq_nil_iff.mpr hbound,nil_append,filter_singleton,hfree,cond_true]

variable {s : TagRow}

theorem allocTag_cases (hn : 2 ≤ s.nrTags) :
    (tagsetAllocTag s=(none,s) ∧ ∀ t,1≤t → t<s.nrTags → s.rqs t≠none) ∨
      ∃ tag next,tagsetAllocTag s=(some tag,{ s with nextTag := next }) ∧ 1≤tag ∧ tag<s.nrTags ∧
        s.rqs tag=none := by
  rw [tagsetAllocTag,if_neg (by omega)]
  cases h : scanTags s.nrTags s.rqs (s.nrTags-1) s.nextTag with
  | none => exact Or.inl ⟨rfl,fun t => scanTags_none hn h⟩
  | some tag =>
    obtain ⟨j,-,rfl,hfree,-⟩ := scanTags_first hn h
    have hlt := Nat.mod_lt (wrapTag s.nrTags s.nextTag-1+j) (show 0<s.nrTags-1 by omega)
    exact Or.inr ⟨_,_,rfl,Nat.le_add_left _ _,by omega,hfree⟩

theorem allocAndBind_nodup (hn : 2 ≤ s.nrTags) (given rs : List Nat)
    (hg : ∀ t,1≤t → t<s.nrTags → s.rqs t≠none → t∈given)
    (hlen : given.length+rs.length ≤ s.nrTags-1) :
    (allocAndBind s rs).Nodup ∧
      ∀ o∈allocAndBind s rs,∃ tag,o=some tag ∧ 1≤tag ∧ tag<s.nrTags ∧ s.rqs tag=none := by
  induction rs generalizing s given with
  | nil => simp [allocAndBind]
  | cons r rs ih =>
    rw [length_cons] at hlen
    obtain ⟨-,hall⟩|⟨tag,next,halloc,hl,hu,hfree⟩ := allocTag_cases hn
    · have hsub : range' 1 (s.nrTags-1)⊆given := fun t ht => by
        have h := mem_range'_1.mp ht
        exact hg t h.1 (by omega) (hall t h.1 (by omega))
      have hnodup : (range' 1 (s.nrTags-1)).Nodup := nodup_range'
      have h := (hnodup.subperm hsub).length_le
      simp at h
      omega
    rw [allocAndBind,halloc]
    simp only [tagsetBindRequest,if_neg (Nat.not_le.mpr hu)]
    obtain ⟨hnodup,hnew⟩ := ih (s := { s with nextTag := next,rqs := update s.rqs tag (some r) })
      hn (tag::given) (fun t h1 h2 ht => by
        by_cases he : t=tag
        · simp [he]
        · exact mem_cons_of_mem _ (hg t h1 h2 (by simpa [he] using ht))) (by simp; omega)
    refine ⟨nodup_cons.mpr ⟨fun hmem => ?_,hnodup⟩,forall_mem_cons.mpr ⟨⟨tag,rfl,hl,hu,hfree⟩,?_⟩⟩
    · obtain ⟨_,he,-,-,hfree'⟩ := hnew _ hmem
      cases he
      simp at hfree'
    · intro o ho
      obtain ⟨t,rfl,h1,h2,ht⟩ := hnew o ho
      refine ⟨t,rfl,h1,h2,?_⟩
      by_cases he : t=tag
      · simp [he] at ht
      · simpa [he] using ht

/-- The scan misses no unbound tag, from any cursor, and the tags bound one after the other are all
there are. -/
theorem tag_scan_complete (s : TagRow) (hn : 2 ≤ s.nrTags) :
    (∀ tag,(tagsetAllocTag s).1=some tag → 1≤tag ∧ tag<s.nrTags ∧ s.rqs tag=none) ∧
    ((tagsetAllocTag s).1=none ↔ ∀ tag,1≤tag → tag<s.nrTags → s.rqs tag≠none) ∧
    ((∀ tag,s.rqs tag=none) → ∀ rs : List Nat,rs.length=s.nrTags-1 →
      (allocAndBind s rs).Nodup ∧
        ∀ o∈allocAndBind s rs,∃ tag,o=some tag ∧ 1≤tag ∧ tag<s.nrTags) := by
  refine ⟨?_,?_,fun hempty rs hrs => ?_⟩
  · obtain ⟨h,-⟩|⟨tag,next,h,hrest⟩ := allocTag_cases hn <;> rw [h]
    · simp
    · rintro _ ⟨⟩
      exact hrest
  · obtain ⟨h,hall⟩|⟨tag,next,h,hl,hu,hfree⟩ := allocTag_cases hn <;> rw [h]
    · exact ⟨fun _ => hall,fun _ => rfl⟩
    · exact ⟨nofun,fun hall => absurd hfree (hall tag hl hu)⟩
  · obtain ⟨hnodup,hall⟩ := allocAndBind_nodup hn [] rs
      (fun t _ _ h => absurd (hempty t) h) (by simp [hrs])
    exact ⟨hnodup,fun o ho => (hall o ho).imp fun _ h => ⟨h.1,h.2.1,h.2.2.1⟩⟩

theorem tag_scan_complete_three : (tagsetAllocTag ⟨3,2,fun _ => none⟩).1=some 2 ∧
    (allocAndBind ⟨3,2,fun _ => none⟩ [5,6]).Nodup :=
  ⟨rfl,((tag_scan_complete ⟨3,2,fun _ => none⟩ (by decide)).2.2 (fun _ => rfl) [5,6] rfl).1⟩

end

end Kobox.Block
