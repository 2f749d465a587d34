import Kobox.PageCache.Marks
import Kobox.PageCache.Reclaim

namespace Kobox.PageCache

open List Function FolioRecord PageState
open Kvm (ArenaBase)
open Kvm.PageArena (indexOf)
open Fs (pageSize)

/-- The bytes of a file from start to stop, or to the end if stop is negative. -/
def InRange (start stop : Int) (pos : Nat) : Prop :=
  0 ≤ start ∧ start≤pos ∧ (stop<0 ∨ (pos : Int) ≤ stop)

namespace FolioRecord

variable (r : FolioRecord) (mapping : Nat) (inside : Nat → Prop)

def position : Nat := r.index*pageSize

def Covered : Prop := r.active=true ∧ r.mapping=mapping ∧ ∀ k<pageSize,inside (r.position+k)

def Holds (base : ArenaBase) (a : Nat) : Prop :=
  r.active=true ∧ r.mapping=mapping ∧ ∃ p k,indexOf base r.folio=some p ∧ k<pageSize ∧
    a=base.payloads+p*pageSize+k ∧ inside (r.position+k)

end FolioRecord

/-- Of the folios in these slots those inside are gone, the bytes inside of the others zero; nothing
else has changed. -/
structure TruncatedTo (base : ArenaBase) (mapping : Nat) (inside : Nat → Prop) (slots : List Nat)
    (s t : PageState) : Prop where
  removed : ∀ i∈slots,(s.records i).Covered mapping inside → t.records i=FolioRecord.empty
  kept : ∀ i,(i∈slots → ¬(s.records i).Covered mapping inside) → t.records i=s.records i
  folios : ∀ f,(∀ i∈slots,(s.records i).Covered mapping inside → (s.records i).folio≠f) →
    t.folios f=s.folios f
  zeroed : ∀ i∈slots,∀ a,(t.records i).Holds mapping inside base a → t.mem a=0
  bytes : ∀ a,(∀ i∈slots,¬(t.records i).Holds mapping inside base a) → t.mem a=s.mem a
  mappings : ∀ m,m≠mapping → t.mappings m=s.mappings m

namespace TruncatedTo

variable {base : ArenaBase} {mapping i : Nat} {inside : Nat → Prop} {slots : List Nat}
  {s t u : PageState}

section

variable (h : TruncatedTo base mapping inside slots s t)

include h

theorem active (hi : (t.records i).active=true) : t.records i=s.records i := by
  apply h.kept i
  intro hm hc
  rw [h.removed i hm hc] at hi
  cases hi

theorem clean (hm : i∈slots) : ¬(t.records i).Covered mapping inside := by
  intro hc
  have he := h.removed i hm (h.active hc.1 ▸ hc)
  rw [he] at hc
  cases hc.1

omit h in
theorem nothing (h : ∀ i∈slots,(s.records i).active=true → (s.records i).mapping=mapping →
    ∀ k<pageSize,¬inside ((s.records i).position+k)) :
    TruncatedTo base mapping inside slots s s where
  removed := fun i hi hc => absurd (hc.2.2 0 (by decide)) (h i hi hc.1 hc.2.1 0 (by decide))
  kept := fun _ _ => rfl
  folios := fun _ _ => rfl
  zeroed := by
    rintro i hi a ⟨h1,h2,p,k,_,hk,_,hr⟩
    exact absurd hr (h i hi h1 h2 k hk)
  bytes := fun _ _ => rfl
  mappings := fun _ _ => rfl

theorem marks : TruncatedTo base mapping inside slots s (filemapMappingRefreshMarks mapping t) := by
  unfold filemapMappingRefreshMarks
  split
  · exact h
  · exact ⟨h.removed,h.kept,h.folios,h.zeroed,h.bytes,fun m hm =>
      (update_of_ne hm _ _).trans (h.mappings m hm)⟩

end

theorem cons (h : TruncatedTo base mapping inside [i] s u)
    (k : TruncatedTo base mapping inside slots u t) :
    TruncatedTo base mapping inside (i::slots) s t := by
  have hti : t.records i=u.records i := k.kept i fun _ => h.clean mem_cons_self
  refine ⟨?_,?_,?_,?_,?_,fun m hm => (k.mappings m hm).trans (h.mappings m hm)⟩
  · intro j hj hc
    by_cases he : j=i
    · subst he
      rw [hti]
      exact h.removed j mem_cons_self hc
    · have hu := h.kept j fun hm => absurd (mem_singleton.mp hm) he
      exact k.removed j ((mem_cons.mp hj).resolve_left he) (by rw [hu]; exact hc)
  · intro j hj
    have hu := h.kept j fun hm => hj (mem_cons.mpr (Or.inl (mem_singleton.mp hm)))
    rw [k.kept j (fun hm => by rw [hu]; exact hj (mem_cons_of_mem i hm)),hu]
  · intro f hf
    rw [k.folios f,h.folios f]
    · intro j hj hc
      exact hf j (mem_cons.mpr (Or.inl (mem_singleton.mp hj))) hc
    · intro j hj hc
      have hu := h.active hc.1
      rw [hu] at hc ⊢
      exact hf j (mem_cons_of_mem i hj) hc
  · intro j hj a ha
    by_cases hm : ∃ l∈slots,(t.records l).Holds mapping inside base a
    · obtain ⟨l,hl,hh⟩ := hm
      exact k.zeroed l hl a hh
    push Not at hm
    rw [k.bytes a hm]
    rcases mem_cons.mp hj with rfl|hj
    · exact h.zeroed j mem_cons_self a (hti ▸ ha)
    · exact absurd ha (hm j hj)
  · intro a ha
    rw [k.bytes a fun j hj => ha j (mem_cons_of_mem i hj),h.bytes a]
    intro j hj
    rw [mem_singleton.mp hj,← hti]
    exact ha i mem_cons_self

end TruncatedTo

section

variable (env : PageEnv) {s : PageState} {mapping i : Nat} {inside : Nat → Prop}

theorem discard_truncated (hs : Core env.base s) (hc : (s.records i).Covered mapping inside) :
    TruncatedTo env.base mapping inside [i] s (filemapFolioDiscard env (s.records i).folio s) := by
  obtain ⟨t,ht⟩ : ∃ t,filemapFolioDiscard env (s.records i).folio s=t := ⟨_,rfl⟩
  have hall : t.records=update s.records i empty ∧
      (∀ f,f≠(s.records i).folio → t.folios f=s.folios f) ∧ t.mem=s.mem ∧
      ∀ m,m≠(s.records i).mapping → t.mappings m=s.mappings m := by
    rw [← ht]
    simp only [filemapFolioDiscard,if_neg (hs.used i hc.1).2,forgetFolio,hs.folioRecord env hc.1,
      filemapRefreshXarrayHead,filemapMappingRefreshMarks,if_neg (hs.used i hc.1).1,unrefFolio,
      onFolio,onMapping,onRecord]
    split_ifs <;> exact ⟨rfl,fun f hf => by simp [hf],rfl,fun m hm => by simp [hm]⟩
  obtain ⟨hrec,hfol,hmem,hmap⟩ := hall
  rw [ht]
  refine ⟨?_,?_,fun f hf => hfol f (hf i mem_cons_self hc).symm,?_,fun a _ => by rw [hmem],
    fun m hm => hmap m (hc.2.1 ▸ hm)⟩
  · intro j hj _
    rw [hrec,mem_singleton.mp hj,update_self]
  · intro j hj
    rw [hrec,update_of_ne]
    rintro rfl
    exact hj mem_cons_self hc
  · intro j hj a hh
    rw [hrec,mem_singleton.mp hj,update_self] at hh
    cases hh.1

theorem Core.payload (hs : Core env.base s) (hi : (s.records i).active=true) :
    ∃ p,indexOf env.base (s.records i).folio=some p ∧
      folioPagePayload env s (s.records i).folio=env.base.payloads+p*pageSize ∧
      env.base.payloads+p*pageSize≠0 := by
  obtain ⟨p,hp,hu⟩ := hs.stored i hi
  have hlt := indexOf_lt hp
  have hpos := env.base.payloadsPos
  refine ⟨p,hp,?_,by omega⟩
  rw [folioPagePayload,Kvm.PageArena.pagePayload,hp]
  simp [Kvm.PageArena.usedRun,hu,pageSize,Kvm.pageSize]
  omega

/-- For the cached folios of the mapping, the bytes inside are those from first to last. -/
def Agrees (s : PageState) (mapping first last : Nat) (inside : Nat → Prop) : Prop :=
  ∀ i,(s.records i).active=true → (s.records i).mapping=mapping → ∀ k<pageSize,
    (inside ((s.records i).position+k) ↔
      first≤(s.records i).position+k ∧ (s.records i).position+k≤last)

variable {first last : Nat}

theorem truncateSlot_truncated (hs : Core env.base s) (hin : Agrees s mapping first last inside)
    (hle : first≤last) (hl : last≤ulongMax) {i : Nat} :
    Core env.base (truncateSlot env mapping first last s i) ∧
      TruncatedTo env.base mapping inside [i] s (truncateSlot env mapping first last s i) := by
  have hmax : ulongMax=2^64-1 := rfl
  by_cases hc : (s.records i).caches mapping=true
  · have hc' := hc
    simp [caches] at hc'
    obtain ⟨⟨hi,hm⟩,_⟩ := hc'
    obtain ⟨p,hp,hpay,hpos⟩ := hs.payload env hi
    have hin := hin i hi hm
    have hnothing : (∀ k<pageSize,¬(first≤(s.records i).position+k ∧
        (s.records i).position+k≤last)) →
        Core env.base s ∧ TruncatedTo env.base mapping inside [i] s s := by
      intro h
      refine ⟨hs,.nothing fun j hj _ _ k hk hr => ?_⟩
      rw [mem_singleton.mp hj] at hr
      exact h k hk ((hin k hk).mp hr)
    have hfill : ∀ off len,(∀ k,off ≤ k ∧ k < off+len ↔ k < pageSize ∧
        first≤(s.records i).position+k ∧ (s.records i).position+k≤last) →
        ¬(s.records i).Covered mapping inside →
        Core env.base { s with mem := s.mem.fill (env.base.payloads+p*pageSize+off) len 0 } ∧
        TruncatedTo env.base mapping inside [i] s
          { s with mem := s.mem.fill (env.base.payloads+p*pageSize+off) len 0 } := by
      intro off len hk hn
      refine ⟨⟨hs.small,hs.blank,hs.used,hs.folios,hs.linked,hs.refs,hs.stored⟩,
        fun j hj h => absurd (mem_singleton.mp hj ▸ h) hn,fun _ _ => rfl,fun _ _ => rfl,?_,?_,
        fun _ _ => rfl⟩
      · intro j hj a hh
        rw [mem_singleton.mp hj] at hh
        obtain ⟨_,_,q,k,hq,hlt,rfl,hr⟩ := hh
        cases hp.symm.trans hq
        have := (hk k).mpr ⟨hlt,(hin k hlt).mp hr⟩
        exact if_pos ⟨by omega,by omega⟩
      · intro a ha
        refine if_neg fun h => ha i mem_cons_self ?_
        obtain ⟨hlt,hr⟩ := (hk (a-(env.base.payloads+p*pageSize))).mp ⟨by omega,by omega⟩
        exact ⟨hi,hm,p,_,hp,hlt,by omega,(hin _ hlt).mpr hr⟩
    unfold truncateSlot
    unfold position at *
    simp only [hc,hpay,Bool.not_true,Bool.false_eq_true,if_false,if_neg hpos]
    split_ifs with h1 h2 h3 h4 h5
    · exact hnothing fun k hk => by omega
    · exact hnothing fun k hk => by omega
    · exact ⟨(discard_core env hs).1,discard_truncated env hs
        ⟨hi,hm,fun k hk => (hin k hk).mpr (by omega)⟩⟩
    all_goals first
      | omega
      | refine hfill _ _ (fun k => by omega) ?_
        rintro ⟨_,_,h⟩
        have h6 := (hin 0 (by decide)).mp (h 0 (by decide))
        have h7 := (hin (pageSize-1) (by decide)).mp (h (pageSize-1) (by decide))
        omega
  · have he : truncateSlot env mapping first last s i=s := by simp [truncateSlot,hc]
    rw [he]
    refine ⟨hs,.nothing fun j hj h1 h2 => ?_⟩
    rw [mem_singleton.mp hj] at h1 h2
    simp [caches,h1,h2,(hs.used i h1).2] at hc

theorem truncateSlots_truncated (hs : Core env.base s) (hin : Agrees s mapping first last inside)
    (hle : first≤last) (hl : last≤ulongMax) {slots : List Nat} :
    Core env.base (slots.foldl (truncateSlot env mapping first last) s) ∧
      TruncatedTo env.base mapping inside slots s
        (slots.foldl (truncateSlot env mapping first last) s) := by
  induction slots generalizing s with
  | nil => exact ⟨hs,.nothing fun i hi => absurd hi not_mem_nil⟩
  | cons i slots ih =>
    obtain ⟨h1,h2⟩ := truncateSlot_truncated env hs hin hle hl
    have hnext : Agrees (truncateSlot env mapping first last s i) mapping first last inside := by
      intro j hj
      have he := h2.active hj
      rw [he] at hj ⊢
      exact hin j hj
    obtain ⟨h3,h4⟩ := ih h1 hnext
    exact ⟨h3,h2.cons h4⟩

end

def NoneLeft (s : PageState) (mapping : Nat) : Prop :=
  ∀ i,(s.records i).active=true → (s.records i).mapping≠mapping

/-- Every cached index of the mapping has its position in 64 bits. -/
def Positioned (s : PageState) (mapping : Nat) : Prop :=
  ∀ i,(s.records i).active=true → (s.records i).mapping=mapping → (s.records i).index*pageSize<2^64

section

variable (env : PageEnv) {s : PageState} (hs : Core env.base s) {mapping i : Nat} (hm : mapping≠0)
  {start stop : Int} (h0 : 0 ≤ start) (h1 : start ≤ int64Max) (h2 : stop ≤ int64Max)
  (hle : stop<0 ∨ start ≤ stop)

include hs hm h0 h1 h2 hle

theorem truncateRange_truncated (inside : Nat → Prop)
    (hin : Agrees s mapping start.toNat (if stop<0 then ulongMax else stop.toNat) inside) :
    TruncatedTo env.base mapping inside (range folioCacheMax) s
      (truncateInodePagesRange env mapping start stop s) := by
  have hmax : ulongMax=2^64-1 := rfl
  have hint : int64Max=2^63-1 := rfl
  have hgo : ¬(mapping=0 ∨ start<0 ∨ (0 ≤ stop ∧ stop<start)) := by omega
  unfold truncateInodePagesRange
  rw [if_neg hgo]
  exact (truncateSlots_truncated env hs hin (by split <;> omega) (by split <;> omega)).2.marks

theorem truncateRange_far (hfar : ¬(s.records i).index*pageSize<2^64) :
    (truncateInodePagesRange env mapping start stop s).records i=s.records i := by
  have hmax : ulongMax=2^64-1 := rfl
  have hint : int64Max=2^63-1 := rfl
  apply (truncateRange_truncated env hs hm h0 h1 h2 hle (fun pos =>
    start.toNat≤pos ∧ pos ≤ if stop<0 then ulongMax else stop.toNat)
    fun _ _ _ _ _ => Iff.rfl).kept i
  rintro _ ⟨_,_,h⟩
  have := (h 0 (by decide)).2
  unfold position at this
  split at this <;> omega

theorem truncateRange_exact (hp : stop<0 → Positioned s mapping) :
    TruncatedTo env.base mapping (InRange start stop) (range folioCacheMax) s
      (truncateInodePagesRange env mapping start stop s) := by
  have hmax : ulongMax=2^64-1 := rfl
  refine truncateRange_truncated env hs hm h0 h1 h2 hle _ fun i hi hmap k hk => ?_
  have := fun hneg => hp hneg i hi hmap
  unfold InRange position
  simp only [pageSize] at *
  split <;> omega

end

theorem truncateFinal_noneLeft (env : PageEnv) {s : PageState} (hs : Core env.base s)
    {mapping : Nat} (hm : mapping≠0) :
    NoneLeft (truncateInodePagesFinal env mapping s) mapping ↔ Positioned s mapping := by
  have hneg : (-1 : Int)<0 := by decide
  have hexact := fun hp => truncateRange_exact env hs hm (le_refl 0) (by decide)
    (by decide) (Or.inl hneg) fun _ => hp
  have hfar := fun {i} => truncateRange_far env hs (i := i) hm (le_refl 0) (by decide)
    (by decide) (Or.inl hneg)
  unfold truncateInodePagesFinal
  constructor
  · intro hnone i hi hmap
    by_contra hbig
    rw [← hfar hbig] at hi hmap
    exact hnone i hi hmap
  · intro hpos i hi hmap
    have h := hexact hpos
    have hsmall := hs.small i (h.active hi ▸ hi)
    exact h.clean (mem_range.mpr hsmall) ⟨hi,hmap,fun k _ => ⟨le_rfl,by omega,Or.inl hneg⟩⟩

/-- A truncation has exactly its effect, the final one empties the mapping, exactly when the range
ends or no cached position is behind 64 bits. -/
theorem truncation_exact_iff (env : PageEnv) (s : PageState) (hs : Core env.base s)
    (mapping : Nat) (start stop : Int) (h1 : start ≤ int64Max) (h2 : stop ≤ int64Max) :
    (TruncatedTo env.base mapping (InRange start stop) (range folioCacheMax) s
        (truncateInodePagesRange env mapping start stop s) ↔
      (0 ≤ start → stop<0 → Positioned s mapping)) ∧
    (NoneLeft (truncateInodePagesFinal env mapping s) mapping ↔ Positioned s mapping) := by
  have hint : int64Max=2^63-1 := rfl
  have hnone : mapping=0 → Positioned s mapping := fun h i hi hmap =>
    absurd (hmap.trans h) (hs.used i hi).1
  constructor
  · by_cases hgo : mapping=0 ∨ start<0 ∨ (0 ≤ stop ∧ stop<start)
    · rw [truncateInodePagesRange,if_pos hgo]
      refine iff_of_true (.nothing fun i _ hi hmap k _ hr => ?_) fun _ _ => hnone (by omega)
      have := (hs.used i hi).1
      unfold InRange at hr
      omega
    · have hm : mapping≠0 := by omega
      have h0 : 0 ≤ start := by omega
      constructor
      · intro hex _ hneg i hi hmap
        by_contra hfar
        have hsame := truncateRange_far env hs hm h0 h1 h2 (Or.inl hneg) hfar
        have hgone := hex.removed i (mem_range.mpr (hs.small i hi)) ⟨hi,hmap,fun k _ => by
          unfold InRange position
          omega⟩
        rw [← hsame,hgone] at hi
        cases hi
      · intro hpos
        exact truncateRange_exact env hs hm h0 h1 h2 (by omega) (hpos h0)
  · by_cases hm : mapping=0
    · rw [truncateInodePagesFinal,truncateInodePagesRange,if_pos (Or.inl hm)]
      exact iff_of_true (fun i hi hmap => (hs.used i hi).1 (hmap.trans hm)) (hnone hm)
    · exact truncateFinal_noneLeft env hs hm

theorem truncation_exact_full :
    TruncatedTo stillEnv.base 8192 (InRange 5000 (-1)) (range folioCacheMax) (fullPages false)
      (truncateInodePagesRange stillEnv 8192 5000 (-1) (fullPages false)) := by
  apply ((truncation_exact_iff stillEnv (fullPages false) (fullPages_core) 8192 5000 (-1)
    (by decide) (by decide)).1).mpr
  intro _ _ i hi _
  obtain ⟨hlt,hrec⟩ := fullPages_record hi
  rw [hrec]
  have hmax : folioCacheMax=2048 := rfl
  simp only [pageSize]
  omega

/-- The folio of index 2^52 is still cached behind the final truncation. -/
theorem far_folio_left :
    let s := (PageCall.getFolio 8192 (2^52) 4 0 false).run stillEnv freshPages
    Core stillEnv.base s ∧ ¬NoneLeft (truncateInodePagesFinal stillEnv 8192 s) 8192 := by
  intro s
  have hcore : Core stillEnv.base s := (run_marked (stillEnv_reentrant
    (fun env calls s => Marked env.base s → RunFits env calls s) fun _ _ => trivial).keepsMarks
    freshPages_fresh.marked (.getFolio 8192 (2^52) 4 0 false) trivial).toCore
  refine ⟨hcore,fun h => ?_⟩
  have hfar := (truncateFinal_noneLeft stillEnv hcore (by decide)).mp h 0
    (by decide +kernel) (by decide +kernel)
  revert hfar
  decide +kernel

end Kobox.PageCache
