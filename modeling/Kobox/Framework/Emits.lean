import Kobox.Framework.Prog

namespace Kobox

open List

/-- From s to t the log has grown by entries that satisfy P. -/
def Emits {σ ε : Type} (log : σ → List ε) (P : ε → Prop) (s t : σ) : Prop :=
  ∃ es,log t=log s++es ∧ ∀ e∈es,P e

namespace Emits

variable {σ ε : Type} {log : σ → List ε} {P : ε → Prop}

theorem silent {s t : σ} (h : log t=log s) : Emits log P s t :=
  ⟨[],by rw [h,append_nil],fun _ he => absurd he not_mem_nil⟩

theorem refl (s : σ) : Emits log P s s := silent rfl

theorem one {s t : σ} {e : ε} (h : log t=log s++[e]) (he : P e) : Emits log P s t :=
  ⟨[e],h,fun _ hd => mem_singleton.mp hd ▸ he⟩

theorem trans (a b c : σ) (h : Emits log P a b) (k : Emits log P b c) : Emits log P a c := by
  obtain ⟨us,hus,hu⟩ := h
  obtain ⟨ws,hws,hw⟩ := k
  refine ⟨us++ws,by rw [hws,hus,append_assoc],?_⟩
  intro e he
  rcases mem_append.mp he with he|he
  · exact hu e he
  · exact hw e he

theorem mono {Q : ε → Prop} {s t : σ} (h : Emits log P s t) (hq : ∀ e,P e → Q e) :
    Emits log Q s t := by
  obtain ⟨es,hes,he⟩ := h
  exact ⟨es,hes,fun e hm => hq e (he e hm)⟩

end Emits

/-- From s to t the log has grown by a list that satisfies P. -/
def Grows {σ ε : Type} (log : σ → List ε) (P : List ε → Prop) (s t : σ) : Prop :=
  ∃ es,log t=log s++es ∧ P es

namespace Grows

variable {σ ε : Type} {log : σ → List ε} {P : List ε → Prop}

theorem silent (hn : P []) {s t : σ} (h : log t=log s) : Grows log P s t :=
  ⟨[],by rw [h,append_nil],hn⟩

theorem trans (ha : ∀ us ws,P us → P ws → P (us++ws)) (a b c : σ) (h : Grows log P a b)
    (k : Grows log P b c) : Grows log P a c := by
  obtain ⟨us,hus,hu⟩ := h
  obtain ⟨ws,hws,hw⟩ := k
  exact ⟨us++ws,by rw [hws,hus,append_assoc],ha us ws hu hw⟩

theorem of_emits {Q : ε → Prop} (hq : ∀ es,(∀ e∈es,Q e) → P es) {s t : σ}
    (h : Emits log Q s t) : Grows log P s t := by
  obtain ⟨es,hes,he⟩ := h
  exact ⟨es,hes,hq es he⟩

end Grows

end Kobox
