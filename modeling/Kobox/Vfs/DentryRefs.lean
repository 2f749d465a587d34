import Kobox.Framework.RefCount
import Kobox.Framework.Unlink
import Kobox.Vfs.Dentry

namespace Kobox.Vfs

open List
open Perm (refl)

open PageCache (lowOrErrPointer)
open DentryState

/-! Inode references that dentries take over, each under the token of its dentry. -/

/-- ps are the tokens and inodes of the dentries; the inode of a negative one is a low pointer. -/
structure Ledger (ps given released : List (Nat × Nat)) (made : Nat) : Prop where
  perm : given.Perm (ps.filter (fun p => !lowOrErrPointer p.2)++released)
  once : (given.map Prod.fst).Nodup
  tokens : (ps.map Prod.fst).Nodup
  negative : ∀ p∈ps,lowOrErrPointer p.2=true → p.1∉given.map Prod.fst
  below : ∀ p∈ps++given,p.1 < made

namespace Ledger

variable {ps ps' given released : List (Nat × Nat)} {made token inode : Nat}

theorem of_perm (h : Ledger ps given released made) (hp : ps.Perm ps') :
    Ledger ps' given released made :=
  ⟨h.perm.trans ((hp.filter _).append_right _),h.once,(hp.map _).nodup_iff.mp h.tokens,
    fun p hm => h.negative p (hp.mem_iff.mpr hm),
    fun p hm => h.below p ((hp.append_right given).mem_iff.mpr hm)⟩

theorem add (h : Ledger ps given released made) (inode : Nat) :
    Ledger ((made,inode)::ps) (if lowOrErrPointer inode then given else (made,inode)::given)
      released (made+1) := by
  have hps : made∉ps.map Prod.fst := fun hc => by
    obtain ⟨p,hp,he⟩ := mem_map.mp hc
    exact absurd (h.below p (mem_append_left _ hp)) (by omega)
  have hgiven : made∉given.map Prod.fst := fun hc => by
    obtain ⟨p,hp,he⟩ := mem_map.mp hc
    exact absurd (h.below p (mem_append_right _ hp)) (by omega)
  have hbelow : ∀ p∈ps++given,p.1 < made+1 := fun p hp => Nat.lt_succ_of_lt (h.below p hp)
  cases hlow : lowOrErrPointer inode with
  | true =>
    refine ⟨?_,h.once,nodup_cons.mpr ⟨hps,h.tokens⟩,?_,?_⟩
    · simpa [hlow] using h.perm
    · intro p hp hl
      rcases mem_cons.mp hp with rfl | hp
      · exact hgiven
      · exact h.negative p hp hl
    · intro p hp
      rcases mem_cons.mp hp with rfl | hp
      · exact Nat.lt_succ_self _
      · exact hbelow p hp
  | false =>
    simp only [Bool.false_eq_true,if_false]
    refine ⟨?_,nodup_cons.mpr ⟨hgiven,h.once⟩,nodup_cons.mpr ⟨hps,h.tokens⟩,?_,?_⟩
    · simpa [hlow] using h.perm
    · intro p hp hl
      rcases mem_cons.mp hp with rfl | hp
      · rw [hlow] at hl
        cases hl
      · rw [map_cons,mem_cons,not_or]
        refine ⟨fun he => hps ?_,h.negative p hp hl⟩
        exact mem_map.mpr ⟨p,hp,he⟩
    · intro p hp
      simp only [cons_append,mem_cons,mem_append] at hp
      rcases hp with rfl | hp | rfl | hp
      · exact Nat.lt_succ_self _
      · exact hbelow p (mem_append_left _ hp)
      · exact Nat.lt_succ_self _
      · exact hbelow p (mem_append_right _ hp)

theorem give {old : Nat} (h : Ledger ((token,old)::ps) given released made)
    (hold : lowOrErrPointer old=true) (hinode : lowOrErrPointer inode=false) :
    Ledger ((token,inode)::ps) ((token,inode)::given) released made := by
  have hno := h.negative _ mem_cons_self hold
  have htok := nodup_cons.mp h.tokens
  refine ⟨?_,nodup_cons.mpr ⟨hno,h.once⟩,h.tokens,?_,?_⟩
  · simpa [hold,hinode] using h.perm
  · intro p hp hl
    rcases mem_cons.mp hp with rfl | hp
    · rw [hinode] at hl
      cases hl
    · rw [map_cons,mem_cons,not_or]
      refine ⟨fun he => htok.1 ?_,h.negative p (mem_cons_of_mem _ hp) hl⟩
      exact he ▸ mem_map_of_mem hp
  · have hself := h.below _ mem_cons_self
    intro p hp
    simp only [cons_append,mem_cons,mem_append] at hp
    rcases hp with rfl | hp | rfl | hp
    · exact hself
    · exact h.below p (by simp [hp])
    · exact hself
    · exact h.below p (by simp [hp])

theorem release (h : Ledger ((token,inode)::ps) given released made) :
    Ledger ps given (if lowOrErrPointer inode then released else (token,inode)::released) made := by
  refine ⟨?_,h.once,(nodup_cons.mp h.tokens).2,
    fun p hp => h.negative p (mem_cons_of_mem _ hp),
    fun p hp => h.below p (mem_cons_of_mem _ hp)⟩
  have hperm := h.perm
  cases hlow : lowOrErrPointer inode with
  | true => simpa [hlow] using hperm
  | false =>
    refine hperm.trans ?_
    simp only [filter_cons,hlow]
    exact perm_middle.symm

end Ledger

/-- A dentry as a node that counts references: it holds one to its parent. -/
def node (r : Dentry) : RefNode Nat :=
  ⟨r.address,r.refcount,if r.parentRefHeld then some r.parent else none⟩

/-- The root of a tree is its own parent, and holds no reference. -/
def Shaped (r : Dentry) : Prop := lowOrErrPointer r.address=false ∧
    (r.parentRefHeld=true ∧ r.parent≠r.address ∨ r.parentRefHeld=false ∧ r.parent=r.address)

def pair (r : Dentry) : Nat × Nat := (r.token,r.inode)

/-- The table when out are the references from outside of it. -/
structure TableOk (rs : List Dentry) (out : List Nat) (given released : List (Nat × Nat))
    (made : Nat) : Prop where
  tallied : Tallied (rs.map node) out
  shaped : ∀ r∈rs,Shaped r
  ledger : Ledger (rs.map pair) given released made

theorem map_node_key (rs : List Dentry) : (rs.map node).map RefNode.key=rs.map Dentry.address := by
  rw [map_map]
  rfl

theorem ups_node (rs : List Dentry) :
    ups (rs.map node)=(rs.filter Dentry.parentRefHeld).map Dentry.parent := by
  induction rs with
  | nil => rfl
  | cons r rs ih =>
    rw [map_cons,ups_cons,ih]
    cases h : r.parentRefHeld <;> simp [node,h]

theorem lowOrErrPointer_zero : lowOrErrPointer 0=true := by decide

namespace TableOk

variable {rs rs' : List Dentry} {out out' : List Nat} {given released : List (Nat × Nat)}
  {made : Nat} {r : Dentry}

theorem perm (h : TableOk rs out given released made) (hr : rs.Perm rs') (ho : out.Perm out') :
    TableOk rs' out' given released made :=
  ⟨h.tallied.perm (hr.map _) ho,fun r hm => h.shaped r (hr.mem_iff.mpr hm),
    h.ledger.of_perm (hr.map _)⟩

theorem get (h : TableOk (r::rs) out given released made) :
    TableOk ({r with refcount := r.refcount+1}::rs) (r.address::out) given released made := by
  refine ⟨h.tallied.get,fun q hq => ?_,h.ledger⟩
  rcases mem_cons.mp hq with rfl | hq
  · exact h.shaped r mem_cons_self
  · exact h.shaped q (mem_cons_of_mem _ hq)

theorem drop (h : TableOk (r::rs) (r.address::out) given released made) (hmore : 1 < r.refcount) :
    TableOk ({r with refcount := r.refcount-1}::rs) out given released made := by
  refine ⟨h.tallied.drop hmore,fun q hq => ?_,h.ledger⟩
  rcases mem_cons.mp hq with rfl | hq
  · exact h.shaped r mem_cons_self
  · exact h.shaped q (mem_cons_of_mem _ hq)

theorem free (h : TableOk (r::rs) (r.address::out) given released made) (hlast : r.refcount≤1) :
    TableOk rs ((node r).up.toList++out) given
      (if lowOrErrPointer r.inode then released else (r.token,r.inode)::released) made :=
  ⟨h.tallied.free hlast,fun q hq => h.shaped q (mem_cons_of_mem _ hq),h.ledger.release⟩

theorem instantiate (h : TableOk (r::rs) out given released made) {inode : Nat}
    (hold : r.inode=0) (hinode : lowOrErrPointer inode=false) :
    TableOk ({r with inode := inode,hashed := true}::rs) out ((r.token,inode)::given) released
      made := by
  refine ⟨h.tallied,fun q hq => ?_,?_⟩
  · rcases mem_cons.mp hq with rfl | hq
    · exact h.shaped r mem_cons_self
    · exact h.shaped q (mem_cons_of_mem _ hq)
  · exact h.ledger.give (by rw [hold]; exact lowOrErrPointer_zero) hinode

theorem add (d parent inode : Nat) (held : Bool)
    (h : TableOk rs ((if held then some parent else none).toList++out) given released made)
    (hnew : d∉rs.map Dentry.address)
    (hshape : Shaped ⟨d,parent,inode,1,held,false,made⟩) :
    TableOk (⟨d,parent,inode,1,held,false,made⟩::rs) (d::out)
      (if lowOrErrPointer inode then given else (made,inode)::given) released (made+1) := by
  refine ⟨?_,fun q hq => ?_,h.ledger.add inode⟩
  · exact h.tallied.add (n := node ⟨d,parent,inode,1,held,false,made⟩)
      (by rw [map_node_key]; exact hnew) rfl
  · rcases mem_cons.mp hq with rfl | hq
    · exact hshape
    · exact h.shaped q hq

end TableOk

def Keeps (s : DentryState) (out : List Nat) : Prop :=
  TableOk s.records out s.given s.released s.made

structure SameRest (s t : DentryState) : Prop where
  files : t.files=s.files
  writecount : t.writecount=s.writecount
  releasing : t.releasing=s.releasing
  handles : t.handles=s.handles

variable {s t : DentryState} {out : List Nat} {d : Nat} {r : Dentry}

theorem isAt_iff : isAt d r=true ↔ r.address=d := by simp [isAt]

theorem find_isSome : (s.find d).isSome=true ↔ d∈s.records.map Dentry.address := by
  unfold DentryState.find
  simp [isAt]

theorem find_address (h : s.find d=some r) : r.address=d := isAt_iff.mp (find?_some h)

theorem find_change (h : s.find d=some r) : ∃ rest,s.records.Perm (r::rest) ∧
      ∀ f,(inUse (changeSlot (isAt d) f s.slots)).Perm ((f r).toList++rest) := changeSlot_perm h

theorem Keeps.found (h : Keeps s (d::out)) : ∃ r,s.find d=some r ∧ d≠0 := by
  have hk := h.tallied.known d (by simp)
  rw [map_node_key] at hk
  obtain ⟨r,hr⟩ := Option.isSome_iff_exists.mp (find_isSome.mpr hk)
  have hmem : r∈s.records := mem_of_find?_eq_some hr
  refine ⟨r,hr,fun h0 => ?_⟩
  have hlow := (h.shaped r hmem).1
  rw [find_address hr,h0] at hlow
  cases hlow

section

variable (h : Keeps s out)

include h

theorem Keeps.perm {out' : List Nat} (hp : out.Perm out') : Keeps s out' :=
  TableOk.perm h (refl _) hp

omit h in
theorem count_sameRest : SameRest s (s.count d) := ⟨rfl,rfl,rfl,rfl⟩

theorem Keeps.counted {p : Dentry → Bool} (hf : s.records.find? p=some r)
    (hmax : r.refcount<countSize-1) :
    Keeps {s with
      slots := changeSlot p (fun r => some {r with refcount := (r.refcount+1)%countSize}) s.slots}
      (r.address::out) := by
  obtain ⟨rest,hold,hnew⟩ := changeSlot_perm hf
  have hmod : (r.refcount+1)%countSize=r.refcount+1 := Nat.mod_eq_of_lt (by omega)
  have hget := (TableOk.perm h hold (refl _)).get
  rw [← hmod] at hget
  exact hget.perm (hnew fun r => some {r with refcount := (r.refcount+1)%countSize}).symm (refl _)

theorem Keeps.count (hf : s.find d=some r) (hmax : r.refcount<countSize-1) :
    Keeps (s.count d) (d::out) := by
  have hc := h.counted hf hmax
  rw [find_address hf] at hc
  exact hc

theorem Keeps.claim_root {inode : Nat} (hlow : lowOrErrPointer d=false)
    (hnew : d∉s.records.map Dentry.address) (hc : s.claim d d inode false=some t) :
    Keeps t (d::out) ∧ SameRest s t := by
  obtain ⟨slots,hslots,rfl⟩ := Option.map_eq_some_iff.mp hc
  refine ⟨?_,⟨rfl,rfl,rfl,rfl⟩⟩
  have hadd := TableOk.add d d inode false h hnew ⟨hlow,.inr ⟨rfl,rfl⟩⟩
  exact hadd.perm (claimSlot_perm hslots).symm (refl _)

theorem Keeps.claim_child {parent : Nat} (hlow : lowOrErrPointer d=false)
    (hnew : d∉s.records.map Dentry.address) (hparent : (s.find parent).isSome=true)
    (hmax : ∀ r∈s.records,r.refcount<countSize-1) (hc : s.claim d parent 0 true=some t) :
    Keeps (t.count parent) (d::out) ∧ SameRest s (t.count parent) := by
  obtain ⟨slots,hslots,rfl⟩ := Option.map_eq_some_iff.mp hc
  refine ⟨?_,⟨rfl,rfl,rfl,rfl⟩⟩
  have hclaim := claimSlot_perm hslots
  have hmem := find_isSome.mp hparent
  have hne : parent≠d := fun he => hnew (he ▸ hmem)
  -- the parent's entry is among those that were there before
  obtain ⟨p,hp⟩ : ∃ p,(inUse slots).find? (isAt parent)=some p := by
    rw [← Option.isSome_iff_exists,find?_isSome]
    obtain ⟨q,hq,he⟩ := mem_map.mp hmem
    exact ⟨q,hclaim.mem_iff.mpr (mem_cons_of_mem _ hq),isAt_iff.mpr he⟩
  obtain rfl : p.address=parent := isAt_iff.mp (find?_some hp)
  have hps : p∈s.records := by
    rcases mem_cons.mp (hclaim.mem_iff.mp (mem_of_find?_eq_some hp)) with he | hps
    · exact absurd (congrArg Dentry.address he) hne
    · exact hps
  obtain ⟨rest,hold,hchange⟩ := changeSlot_perm hp
  have hsplit := perm_cons_erase hps
  have hrest : rest.Perm (⟨d,p.address,0,1,true,false,s.made⟩::s.records.erase p) := by
    have hboth := (hold.symm.trans hclaim).trans (hsplit.cons _)
    exact (hboth.trans (Perm.swap p _ _)).cons_inv
  have hmod : (p.refcount+1)%countSize=p.refcount+1 :=
    Nat.mod_eq_of_lt (by have := hmax p hps; omega)
  have hget := (TableOk.perm h hsplit (refl _)).get
  rw [← hmod] at hget
  have hadd := TableOk.add d p.address 0 true hget
    (fun hc => hnew ((hsplit.map Dentry.address).mem_iff.mpr hc)) ⟨hlow,.inl ⟨rfl,hne⟩⟩
  refine hadd.perm ?_ (refl _)
  refine .trans ?_ (hchange fun r => some {r with refcount := (r.refcount+1)%countSize}).symm
  exact (Perm.swap _ _ _).trans (hrest.symm.cons _)

end

/-- Dropping a reference; where it was the last one, the one to the parent is still to be dropped. -/
theorem Keeps.dput (h : Keeps s (d::out)) :
    ∃ up,Keeps (s.dput d) (up++out) ∧ (s.dput d).releasing=up++s.releasing ∧
      (s.dput d).files=s.files ∧ (s.dput d).writecount=s.writecount ∧
      (s.dput d).handles=s.handles := by
  obtain ⟨r,hr,h0⟩ := h.found
  have hd := find_address hr
  obtain ⟨rest,hold,hchange⟩ := find_change hr
  have htable := TableOk.perm h hold (refl _)
  rw [← hd] at htable
  unfold DentryState.dput
  rw [if_neg h0,hr]
  dsimp only
  by_cases hmore : 1 < r.refcount
  · rw [if_pos hmore]
    refine ⟨[],?_,rfl,rfl,rfl,rfl⟩
    exact (htable.drop hmore).perm
      (hchange fun r => some {r with refcount := r.refcount-1}).symm (refl _)
  · rw [if_neg hmore]
    refine ⟨(node r).up.toList,?_,?_,rfl,rfl,rfl⟩
    · exact (htable.free (by omega)).perm (hchange fun _ => none).symm (refl _)
    obtain ⟨-,⟨hheld,hne⟩ | ⟨hheld,-⟩⟩ := h.shaped r (mem_of_find?_eq_some hr)
    · have hp0 : r.parent≠0 := by
        have hfound := h.tallied.known r.parent (by
          rw [ups_node]
          refine mem_append_right _ (mem_map.mpr ⟨r,mem_filter.mpr ⟨?_,hheld⟩,rfl⟩)
          exact mem_of_find?_eq_some hr)
        rw [map_node_key] at hfound
        obtain ⟨q,hq,he⟩ := mem_map.mp hfound
        intro hz
        have hlow := (h.shaped q hq).1
        rw [he,hz] at hlow
        cases hlow
      rw [hd] at hne
      simp [node,hheld,hp0,hne]
    · simp [node,hheld]

theorem Keeps.pathPut (h : Keeps s (d::out)) :
    ∃ up,Keeps (s.pathPut d) (up++out) ∧ (s.pathPut d).releasing=up++s.releasing ∧
      (s.pathPut d).files=s.files ∧ (s.pathPut d).writecount=s.writecount ∧
      (s.pathPut d).handles=s.handles := by
  obtain ⟨r,hr,-⟩ := h.found
  unfold DentryState.pathPut
  rw [hr]
  exact h.dput

end Kobox.Vfs
