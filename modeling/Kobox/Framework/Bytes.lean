import Mathlib.Tactic

namespace Kobox

open List

/-- One byte-addressed object; offsets past its end are kept, so that an access there can be named. -/
abbrev Bytes := Nat → UInt8

namespace Bytes

def put (b : Bytes) (off : Nat) (xs : List UInt8) : Bytes :=
  fun a => if off≤a ∧ a<off+xs.length then xs.getD (a-off) 0 else b a

def fill (b : Bytes) (off len : Nat) (v : UInt8) : Bytes :=
  fun a => if off≤a ∧ a<off+len then v else b a

def copy (b : Bytes) (off len : Nat) (src : Bytes) (srcOff : Nat) : Bytes :=
  fun a => if off≤a ∧ a<off+len then src (srcOff+(a-off)) else b a

def slice (b : Bytes) (off n : Nat) : List UInt8 := (List.range n).map fun k => b (off+k)

/-- A list of stores at offsets from a base, in order. -/
def putAll (b : Bytes) (base : Nat) (stores : List (Nat × List UInt8)) : Bytes :=
  stores.foldl (fun c w => c.put (base+w.1) w.2) b

/-- Little-endian encoding in n bytes, high bits dropped. -/
def leBytes : Nat → Nat → List UInt8
  | 0,_ => []
  | n+1,v => UInt8.ofNat v :: leBytes n (v/256)

def leValue (b : Bytes) : Nat → Nat → Nat
  | _,0 => 0
  | off,n+1 => (b off).toNat+256*leValue b (off+1) n

variable (b : Bytes) (off n base : Nat)

@[simp] theorem leBytes_length (v : Nat) : (leBytes n v).length=n := by
  induction n generalizing v with
  | zero => rfl
  | succ n ih => simp [leBytes,ih]

theorem put_outside (xs : List UInt8) (a : Nat) (h : a<off ∨ off+xs.length≤a) :
    b.put off xs a=b a := by
  unfold put
  rw [if_neg (by omega)]

@[simp] theorem slice_length : (b.slice off n).length=n := by
  simp [slice]

theorem slice_part {off n skip m : Nat} (h : skip+m≤n) :
    ((b.slice off n).drop skip).take m=b.slice (off+skip) m := by
  apply ext_getElem
  · simp
    omega
  · intro i h1 h2
    simp [slice,Nat.add_assoc]

theorem slice_put (xs : List UInt8) : (b.put off xs).slice off xs.length=xs := by
  apply ext_getElem
  · simp
  intro i h1 h2
  have hput : b.put off xs (off+i)=xs.getD i 0 := by
    unfold put
    rw [if_pos (by omega),Nat.add_sub_cancel_left]
  simp [slice,hput,getD_eq_getElem?_getD,h2]

theorem putAll_outside (stores : List (Nat × List UInt8)) (a : Nat)
    (h : ∀ w∈stores,a<base+w.1 ∨ base+w.1+w.2.length≤a) : b.putAll base stores a=b a := by
  induction stores generalizing b with
  | nil => rfl
  | cons w stores ih =>
    have hw := put_outside b (base+w.1) w.2 a (h w mem_cons_self)
    exact (ih (b.put (base+w.1) w.2) fun v hv => h v (mem_cons_of_mem _ hv)).trans hw

theorem copy_outside (len : Nat) (src : Bytes) {srcOff a : Nat} (h : a<off ∨ off+len≤a) :
    b.copy off len src srcOff a=b a := by
  unfold copy
  rw [if_neg (by omega)]

theorem copy_inside (len : Nat) (src : Bytes) (srcOff k : Nat) (h : k<len) :
    b.copy off len src srcOff (off+k)=src (srcOff+k) := by
  unfold copy
  rw [if_pos (by omega),Nat.add_sub_cancel_left]

theorem leValue_congr (c : Bytes) (off n : Nat) (h : ∀ a,off≤a → a<off+n → b a=c a) :
    leValue b off n=leValue c off n := by
  induction n generalizing off with
  | zero => rfl
  | succ n ih =>
    rw [leValue,leValue,h off (by omega) (by omega),
      ih (off+1) (fun a hl hu => h a (by omega) (by omega))]

theorem leValue_put_outside (at_ : Nat) (xs : List UInt8) (h : at_+xs.length≤off ∨ off+n≤at_) :
    leValue (b.put at_ xs) off n=leValue b off n := by
  apply leValue_congr
  intro a hl hu
  exact put_outside b at_ xs a (by omega)

theorem leValue_putAll_outside (stores : List (Nat × List UInt8)) (off n : Nat)
    (h : ∀ w∈stores,base+w.1+w.2.length≤off ∨ off+n≤base+w.1) :
    leValue (b.putAll base stores) off n=leValue b off n := by
  apply leValue_congr
  intro a hl hu
  apply putAll_outside
  intro w hw
  have := h w hw
  omega

theorem putAll_append (xs ys : List (Nat × List UInt8)) :
    b.putAll base (xs++ys)=(b.putAll base xs).putAll base ys := foldl_append

private theorem put_cons (x : UInt8) (xs : List UInt8) :
    b.put off (x::xs)=(fun a => if a=off then x else b.put (off+1) xs a) := by
  funext a
  unfold put
  by_cases ha : a=off
  · subst a
    simp
  rw [if_neg ha]
  by_cases hr : off+1≤a ∧ a<off+1+xs.length
  · rw [if_pos hr,if_pos (by simp only [length_cons]; omega)]
    have he : a-off=(a-(off+1))+1 := by omega
    rw [he,getD_cons_succ]
  · rw [if_neg hr,if_neg (by simp only [length_cons]; omega)]

theorem leValue_put_self (v : Nat) : leValue (b.put off (leBytes n v)) off n=v%256^n := by
  induction n generalizing off v with
  | zero => simp [leValue,Nat.mod_one]
  | succ n ih =>
    rw [leBytes,leValue,put_cons]
    have ht : leValue (fun a => if a=off then UInt8.ofNat v else b.put (off+1) (leBytes n (v/256)) a)
        (off+1) n=leValue (b.put (off+1) (leBytes n (v/256))) (off+1) n := by
      apply leValue_congr
      intro a hl hu
      rw [if_neg (by omega)]
    rw [ht,ih (off+1) (v/256)]
    have hx : (UInt8.ofNat v).toNat=v%256 := by simp
    simp only [if_true,hx]
    rw [Nat.pow_succ,Nat.mul_comm (256^n) 256,Nat.mod_mul]

theorem leValue_putAll_mem {stores : List (Nat × List UInt8)} {off n v : Nat}
    (hmem : (off,leBytes n v)∈stores)
    (hp : stores.Pairwise fun w x => w.1+w.2.length≤x.1 ∨ x.1+x.2.length≤w.1) :
    leValue (b.putAll base stores) (base+off) n=v%256^n := by
  induction stores generalizing b with
  | nil => cases hmem
  | cons w stores ih =>
    obtain ⟨hw,hrest⟩ := pairwise_cons.mp hp
    rcases mem_cons.mp hmem with rfl|hin
    · have hout := leValue_putAll_outside (b.put (base+off) (leBytes n v)) base stores (base+off) n
        (fun x hx => by
          have := hw x hx
          rw [leBytes_length] at this
          omega)
      exact hout.trans (leValue_put_self b (base+off) n v)
    · exact ih (b.put (base+w.1) w.2) hin hrest

end Bytes

end Kobox
