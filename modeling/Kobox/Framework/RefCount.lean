import Mathlib.Tactic

namespace Kobox

open List

/-! Nodes that count the references to them, and may hold one to a node above. -/

structure RefNode (α : Type) where
  key : α
  count : Nat
  up : Option α

variable {α : Type}

def ups (nodes : List (RefNode α)) : List α := nodes.filterMap RefNode.up

@[simp] theorem ups_nil : ups ([] : List (RefNode α))=[] := rfl

@[simp] theorem ups_cons (n : RefNode α) (nodes : List (RefNode α)) :
    ups (n::nodes)=n.up.toList++ups nodes := by
  cases h : n.up <;> simp [ups,h]

variable [DecidableEq α]

/-- Each node counts the references from outside and from nodes, which lead to nodes; none has
none. -/
structure Tallied (nodes : List (RefNode α)) (out : List α) : Prop where
  distinct : (nodes.map RefNode.key).Nodup
  counts : ∀ n∈nodes,n.count=out.count n.key+(ups nodes).count n.key
  known : ∀ a∈out++ups nodes,a∈nodes.map RefNode.key
  used : ∀ n∈nodes,0 < n.count

namespace Tallied

variable {nodes nodes' rest : List (RefNode α)} {out out' : List α} {n : RefNode α} {a : α}

theorem nil : Tallied ([] : List (RefNode α)) [] := by
  refine ⟨nodup_nil,?_,?_,?_⟩ <;> simp

theorem perm (h : Tallied nodes out) (hn : nodes.Perm nodes') (ho : out.Perm out') :
    Tallied nodes' out' := by
  have hups : (ups nodes).Perm (ups nodes') := hn.filterMap _
  refine ⟨(hn.map _).nodup_iff.mp h.distinct,fun m hm => ?_,fun b hb => ?_,
    fun m hm => h.used m (hn.mem_iff.mpr hm)⟩
  · rw [← ho.count_eq,← hups.count_eq]
    exact h.counts m (hn.mem_iff.mpr hm)
  · exact (hn.map _).mem_iff.mp (h.known b ((ho.append hups).mem_iff.mpr hb))

/-- A node exists exactly while there is a reference to it. -/
theorem mem_iff (h : Tallied nodes out) : a∈nodes.map RefNode.key ↔ a∈out++ups nodes := by
  refine ⟨fun ha => ?_,h.known a⟩
  obtain ⟨m,hm,rfl⟩ := mem_map.mp ha
  have hpos := h.used m hm
  rw [h.counts m hm,← count_append] at hpos
  exact count_pos_iff.mp hpos

theorem key_ne (h : Tallied (n::rest) out) {m : RefNode α} (hm : m∈rest) : m.key≠n.key := by
  have hd := h.distinct
  rw [map_cons,nodup_cons] at hd
  exact fun he => hd.1 (mem_map.mpr ⟨m,hm,he⟩)

theorem get (h : Tallied (n::rest) out) : Tallied (⟨n.key,n.count+1,n.up⟩::rest) (n.key::out) := by
  refine ⟨h.distinct,?_,?_,?_⟩
  · intro m hm
    rw [ups_cons]
    rcases mem_cons.mp hm with rfl | hm
    · have hc := h.counts n mem_cons_self
      rw [ups_cons] at hc
      rw [count_cons_self]
      dsimp only
      omega
    · have hc := h.counts m (mem_cons_of_mem _ hm)
      rw [ups_cons] at hc
      rw [count_cons_of_ne (h.key_ne hm).symm]
      exact hc
  · intro b hb
    rcases mem_cons.mp hb with rfl | hb
    · exact mem_cons_self
    · exact h.known b hb
  · intro m hm
    rcases mem_cons.mp hm with rfl | hm
    · exact Nat.succ_pos _
    · exact h.used m (mem_cons_of_mem _ hm)

theorem add (h : Tallied nodes (n.up.toList++out)) (hnew : n.key∉nodes.map RefNode.key)
    (hone : n.count=1) : Tallied (n::nodes) (n.key::out) := by
  have hno : n.key∉(n.up.toList++out)++ups nodes := fun hc => hnew (h.known _ hc)
  simp only [mem_append,not_or] at hno
  refine ⟨nodup_cons.mpr ⟨hnew,h.distinct⟩,?_,?_,?_⟩
  · intro m hm
    rw [ups_cons]
    rcases mem_cons.mp hm with rfl | hm
    · rw [hone,count_cons_self,count_append,count_eq_zero.mpr hno.1.2,
        count_eq_zero.mpr hno.1.1,count_eq_zero.mpr hno.2]
    have hc := h.counts m hm
    have hne : n.key≠m.key := fun he => hnew (mem_map.mpr ⟨m,hm,he.symm⟩)
    rw [count_append] at hc
    rw [count_cons_of_ne hne,count_append,hc]
    omega
  · intro b hb
    rw [ups_cons] at hb
    rw [map_cons,mem_cons]
    simp only [cons_append,mem_cons,mem_append] at hb
    rcases hb with rfl | hb | hb | hb
    · exact .inl rfl
    · exact .inr (h.known b (by simp [hb]))
    · exact .inr (h.known b (by simp [hb]))
    · exact .inr (h.known b (by simp [hb]))
  · intro m hm
    rcases mem_cons.mp hm with rfl | hm
    · omega
    · exact h.used m hm

theorem drop (h : Tallied (n::rest) (n.key::out)) (hmore : 1 < n.count) :
    Tallied (⟨n.key,n.count-1,n.up⟩::rest) out := by
  refine ⟨h.distinct,?_,?_,?_⟩
  · intro m hm
    rw [ups_cons]
    rcases mem_cons.mp hm with rfl | hm
    · have hc := h.counts n mem_cons_self
      rw [ups_cons,count_cons_self] at hc
      dsimp only
      omega
    · have hc := h.counts m (mem_cons_of_mem _ hm)
      rw [ups_cons,count_cons_of_ne (h.key_ne hm).symm] at hc
      exact hc
  · intro b hb
    refine h.known b ?_
    exact mem_cons_of_mem _ hb
  · intro m hm
    rcases mem_cons.mp hm with rfl | hm
    · dsimp only
      omega
    · exact h.used m (mem_cons_of_mem _ hm)

theorem free (h : Tallied (n::rest) (n.key::out)) (hlast : n.count≤1) :
    Tallied rest (n.up.toList++out) := by
  have hc := h.counts n mem_cons_self
  rw [ups_cons,count_cons_self,count_append] at hc
  have hno : n.key∉n.up.toList++out++ups rest := by
    rw [← count_eq_zero,count_append,count_append]
    omega
  refine ⟨(nodup_cons.mp h.distinct).2,?_,?_,fun m hm => h.used m (mem_cons_of_mem _ hm)⟩
  · intro m hm
    have hm' := h.counts m (mem_cons_of_mem _ hm)
    rw [ups_cons,count_cons_of_ne (h.key_ne hm).symm,count_append] at hm'
    rw [hm',count_append]
    omega
  · intro b hb
    have hne : b≠n.key := fun he => hno (he ▸ hb)
    have hk := h.known b (by
      rw [ups_cons]
      simp only [mem_append,mem_cons] at hb ⊢
      tauto)
    rw [map_cons,mem_cons] at hk
    exact hk.resolve_left hne

end Tallied

end Kobox
