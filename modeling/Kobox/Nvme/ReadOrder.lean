import Kobox.Nvme.ReadBatch

namespace Kobox.Nvme

open List

variable {env : Env} {s t : Io} {cs xs os : List Command}

theorem Tracks.execs (h : Tracks env cs xs s t) (hn : Numbered cs) (os : List Command)
    (hsub : ∀ c∈os,c∈cs) (hnew : (xs++os).Nodup) :
    Tracks env cs (xs++os) s ((os.map fun c => .exec c.serial).foldl (deviceAct env) t) := by
  induction os generalizing xs t with
  | nil => simpa using h
  | cons c os ih =>
    have hout : c∉xs := fun hin =>
      disjoint_left.mp (nodup_append'.mp hnew).2.2 hin mem_cons_self
    have hone := h.exec hn (hsub c mem_cons_self) hout
    have hsplit : xs++c::os=(xs++[c])++os := by simp
    rw [hsplit] at hnew ⊢
    exact ih hone (fun d hd => hsub d (mem_cons_of_mem _ hd)) hnew

theorem Tracks.full {ys : List Command} (h : Tracks env cs (xs++ys) s t) (hx : xs.Perm cs) :
    ys=[] := by
  apply eq_nil_iff_forall_not_mem.mpr
  intro c hc
  have hin := hx.mem_iff.mpr (h.sub c (mem_append_right _ hc))
  exact disjoint_left.mp (nodup_append'.mp h.nodup).2.2 hin hc

theorem Tracks.waitAll_first (h : Tracks env cs [] s t) (hn : Numbered cs) (hp : Prompt env)
    (hgood : ∀ c∈cs,env.status c=0) (hne : cs≠[]) (hturn : ∀ n,Tracks env cs os s (deviceTurn env (some n) t))
    (hos : os.Perm cs) (rs : List IoRq) (hrs : ∀ n∈rs.filterMap IoRq.serial,∃ c∈cs,c.serial=n)
    (hall : flying t ⊆ rs.filterMap IoRq.serial) :
    Tracks env cs os s (Nvme.waitAll env rs 0 t).2 := by
  have hout : ∀ c∈cs,∃ f∈t.flights,f.command=c := by
    intro c hc
    rcases h.rest c hc with hin|hx
    · exact hin
    · cases hx.1
  induction rs with
  | nil =>
    obtain ⟨c,hc⟩ := exists_mem_of_ne_nil _ hne
    obtain ⟨f,hf,rfl⟩ := hout c hc
    have := hall (mem_flying.mpr ⟨f,hf,rfl⟩)
    simp at this
  | cons r rs ih =>
    rw [Nvme.waitAll]
    cases hr : r.serial with
    | none =>
      simp only [filterMap_cons,hr] at hrs hall
      exact ih hrs hall
    | some n =>
      simp only [filterMap_cons,hr] at hrs hall
      obtain ⟨c,hc,rfl⟩ := hrs n mem_cons_self
      obtain ⟨f,hf,rfl⟩ := hout c hc
      obtain ⟨hres,-,hfly,hgone⟩ := h.complete hn hp hc hr
      have hnone := (h.flights f hf).2.1
      have hstate : (completeRq env r t).2=deviceTurn env (some f.command.serial) t := by
        rw [completeRq,hr]
        simp only [hnone]
        split <;> rfl
      simp only [hres,hgood _ hc]
      rw [hstate] at hfly hgone ⊢
      have hrest : flying (deviceTurn env (some f.command.serial) t) ⊆ rs.filterMap IoRq.serial := by
        intro k hk
        rcases mem_cons.mp (hall (hfly hk)) with rfl|hin
        · exact absurd hk hgone
        · exact hin
      obtain ⟨-,ys,hys,-⟩ := (hturn _).waitAll hn hp hgood rs
        (fun k hk => hrs k (mem_cons_of_mem _ hk)) hrest
      obtain rfl := hys.full hos
      rwa [append_nil] at hys

/-- A list with what is at this sector moved to its end. -/
def sectorLast (sector : Nat) (qs : List IoRequest) : List IoRequest :=
  qs.filter (fun q => q.sector≠sector)++qs.filter (fun q => q.sector=sector)

/-- A device that leaves the command at this sector for the end. -/
def lastTurn (sector : Nat) (_ : Option Nat) (s : Io) : List Act :=
  let fs := s.flights.filter (fun f => f.command.slba≠sector)++
    s.flights.filter (fun f => f.command.slba=sector)
  fs.map (fun f => .exec f.command.serial)++
    fs.map (fun f => .finish f.command.serial f.command.serial)

def Env.turning (env : Env) (turn : Option Nat → Io → List Act) : Env := { env with turn := turn }

theorem Ample.turning (h : Ample env) (turn : Option Nat → Io → List Act) : Ample (env.turning turn) :=
  ⟨h.blocks,h.requests,h.maps,h.lists,h.submits,h.bounces,h.judges⟩

theorem lastTurn_prompt (env : Env) (sector : Nat) : Prompt (env.turning (lastTurn sector)) := by
  constructor
  · intro awaited s n m hm
    simp only [Env.turning,lastTurn,mem_append,mem_map] at hm
    rcases hm with ⟨f,-,hf⟩|⟨f,-,hf⟩
    · cases hf
    · cases hf
      rfl
  · intro s n f hf hn
    obtain ⟨g,hg,rfl⟩ := mem_flying.mp (foldl_flying _ _ _ (mem_flying.mpr ⟨f,hf,hn⟩))
    have hgm : g∈s.flights.filter (fun f => f.command.slba≠sector)++
        s.flights.filter (fun f => f.command.slba=sector) := by
      by_cases hs : g.command.slba=sector <;> simp [hg,hs]
    obtain ⟨as,bs,hsplit⟩ := append_of_mem hgm
    have hgone := finished_gone (env.turning (lastTurn sector)) s
    apply hgone
    have hturn : (env.turning (lastTurn sector)).turn (some g.command.serial) s=
        as.map (fun f => .exec f.command.serial)++.exec g.command.serial::
          (bs.map (fun f => .exec f.command.serial)++
            as.map fun f => .finish f.command.serial f.command.serial)++
          .finish g.command.serial g.command.serial::
            bs.map fun f => .finish f.command.serial f.command.serial := by
      simp only [Env.turning,lastTurn,hsplit]
      simp
    rw [← hturn]
    exact mem_flying.mpr ⟨f,hf,hn⟩

variable (sector : Nat)

theorem lastTurn_launched {awaited : Option Nat} (h : t.flights=cs.map (launched s)) :
    lastTurn sector awaited t=
      (cs.filter (fun c => c.slba≠sector)++cs.filter (fun c => c.slba=sector)).map
          (fun c => .exec c.serial)++
        (cs.filter (fun c => c.slba≠sector)++cs.filter (fun c => c.slba=sector)).map
          fun c => .finish c.serial c.serial := by
  simp only [lastTurn,h,filter_map,map_append,map_map]
  rfl

theorem sectorLast_perm (cs : List Command) :
    (cs.filter (fun c => c.slba≠sector)++cs.filter (fun c => c.slba=sector)).Perm cs := by
  have h := filter_append_perm (fun c : Command => decide (c.slba≠sector)) cs
  simpa using h

theorem lastTurn_orders (ha : Ample env) (sector : Nat) :
    Orders (env.turning (lastTurn sector)) fun qs xs => xs=sectorLast sector qs := by
  constructor
  · intro q
    by_cases hq : q.sector=sector <;> simp [sectorLast,hq]
  intro s qs hidle hne hlen hfit
  have ha' := ha.turning (lastTurn sector)
  have hp := lastTurn_prompt env sector
  obtain ⟨hok,hafter,-⟩ := ioParallel_effect ha' hp hidle hne hlen hfit
  refine ⟨hok,hafter,_,rfl,?_⟩
  obtain ⟨cs,rs,t,u,hstill,hl,hserials,hcarry,heq⟩ := ioParallel_launch ha' hne hlen hfit
  have hflights : u.flights=cs.map (launched t) := by
    rw [hl.flights,(hidle.still hstill).flights,nil_append]
  have hperm := sectorLast_perm sector cs
  have hact := fun n => @lastTurn_launched _ _ _ sector (some n) hflights
  generalize hos : cs.filter (fun c => c.slba≠sector)++cs.filter (fun c => c.slba=sector)=os
    at hperm hact
  have htrack : Tracks (env.turning (lastTurn sector)) cs [] t u := (hidle.still hstill).tracks hl
  have hturn : ∀ n,Tracks (env.turning (lastTurn sector)) cs os t
      (deviceTurn (env.turning (lastTurn sector)) (some n) u) := by
    intro n
    have hexec := htrack.execs hl.apart os (fun c hc => hperm.mem_iff.mp hc)
      (by simpa using hperm.nodup_iff.mpr hl.nodup)
    obtain ⟨ys,hys⟩ := hexec.acts hl.apart (os.map fun c => .finish c.serial c.serial) (by
      intro n m hm
      obtain ⟨c,-,hc⟩ := mem_map.mp hm
      cases hc
      rfl)
    obtain rfl := hys.full hperm
    rw [append_nil] at hys
    change Tracks _ cs os t ((lastTurn sector (some n) u).foldl _ u)
    rw [hact n,foldl_append]
    exact hys
  have hcs : cs≠[] := by
    rintro rfl
    cases hcarry
    exact hne rfl
  have hfly : flying u=rs.filterMap IoRq.serial := by
    rw [hserials,flying,hflights,map_map]
    rfl
  have hwait := htrack.waitAll_first hl.apart hp
    (fun c hc => (forall₂_right hcarry c hc).choose_spec.2.taken) hcs hturn hperm rs
    (fun n hn => mem_map.mp (hserials ▸ hn)) (by rw [hfly]; exact Subset.refl _)
  have hsame : sectorLast sector qs=os.map Command.request := by
    rw [← hos,← carries_requests hcarry,sectorLast,filter_map,filter_map, map_append]
    rfl
  rw [heq,hsame]
  exact (hwait.effect ha' hcarry).congr ⟨hstill.mem,hstill.medium⟩ (freeAll_still rs _).contents

def oneByOne (env : Env) (opcode : Opcode) (qs : List IoRequest) (s : Io) : Int × Io :=
  inOrder (fun q => diskIo env opcode q.sector q.data q.byteCount) qs s

theorem oneByOne_effect (ha : Ample env) (hp : Prompt env) (hidle : Idle s) {opcode : Opcode}
    {qs : List IoRequest} (hone : ∀ q∈qs,OneFits env opcode q) :
    Effect opcode qs s (oneByOne env opcode qs s).2 := by
  rw [oneByOne]
  induction qs generalizing s with
  | nil => exact Effect.nil opcode s
  | cons q qs ih =>
    obtain ⟨hiff,hdone⟩ := diskIo_effect ha hp hidle opcode q
    have hq := hone q mem_cons_self
    rw [inOrder,if_pos (hiff.mpr hq)]
    exact (hdone hq).2.append (ih (hdone hq).1 fun r hr => hone r (mem_cons_of_mem _ hr))

/-- A call succeeds and leaves the medium and the memory of its callers as another does. -/
def SameResult (a b : Int × Io) : Prop :=
  a.1=0 ∧ a.2.medium=b.2.medium ∧ ∀ place,(∀ n,place≠.bounce n) → a.2.mem place=b.2.mem place

def Apart (q r : IoRequest) : Prop :=
  q.sector+q.byteCount/lbaUnit ≤ r.sector ∨ r.sector+r.byteCount/lbaUnit≤q.sector

instance Apart.symm : Std.Symm Apart := ⟨fun _ _ h => Or.symm h⟩

/-- At least two requests, commands that would succeed alone, and no two reads of different bytes
into one byte of the last group reading it. -/
structure ReadFits (env : Env) (medium : Nat → UInt8) (qs : List IoRequest) : Prop where
  several : 2≤qs.length
  fits : ∀ g∈readPlan env qs,∀ m∈g,OneFits env .read m
  settled : ∀ x,SettledAt x ((readPlan env qs).map (List.map (readByte medium)))

variable {q : IoRequest}

theorem OneFits.turning {opcode : Opcode} (turn : Option Nat → Io → List Act) :
    OneFits (env.turning turn) opcode q ↔ OneFits env opcode q :=
  ⟨fun h => ⟨h.good,h.blocks,h.pages,h.accepted⟩,fun h => ⟨h.good,h.blocks,h.pages,h.accepted⟩⟩

theorem forall₂_perm_map {α β : Type} {f : α → β} {as bs : List (List α)}
    (h : Forall₂ (fun a b => b.Perm a) as bs) :
    Forall₂ Perm (bs.map (map f)) (as.map (map f)) :=
  rel_map (fun _ _ hab => hab.map f) h.flip

theorem effect_read_byte {xss : List (List IoRequest)} (h : Effect .read xss.flatten s t)
    (place : Place) (a : Nat) :
    t.mem place a=(lastOf (xss.map (map (readByte s.medium))).flatten (place,a)).getD
      (s.mem place a) := by
  rw [h.1,readAll,overlay_apply,map_flatten]

variable {qs : List IoRequest}

theorem ReadFits.same (h : ReadFits env s.medium qs) (ha : Ample env) (hp : Prompt env)
    (hidle : Idle s) (hmany : qs.length ≤ batchMax) (hone : ∀ q∈qs,OneFits env .read q) :
    SameResult (diskReadBatch env qs s) (oneByOne env .read qs s) := by
  obtain ⟨hiff,hdone⟩ := diskReadBatch_spec ha hp (hp.orders ha) hidle hmany hone
  obtain ⟨-,xss,hxss,heffect⟩ := hdone ⟨h.several,h.fits⟩
  have hseq := oneByOne_effect ha hp hidle hone
  refine ⟨hiff.mpr ⟨h.several,h.fits⟩,by rw [heffect.2,hseq.2],fun place _ => ?_⟩
  funext a
  rw [effect_read_byte heffect,hseq.1,readAll,overlay_apply,
    (h.settled (place,a)).lastOf_flatten (forall₂_perm_map hxss),readPlan_last]

theorem readPlan_group {g : List IoRequest} (hg : g∈readPlan env qs) :
    (∃ m,g=[m]) ∨ g.Sublist qs := by
  have hgroup : ∀ l : List IoRequest,(∃ m,readGroup env l=[m]) ∨ readGroup env l=l := by
    intro l
    cases l with
    | nil => exact Or.inr rfl
    | cons q l =>
      rw [readGroup]
      split
      · exact Or.inl ⟨_,rfl⟩
      · exact Or.inr rfl
  rw [readPlan] at hg
  split at hg
  · rw [mem_singleton.mp hg]
    rcases hgroup qs with h|h
    · exact Or.inl h
    · exact Or.inr (by rw [h])
  · obtain ⟨l,hl,rfl⟩ := mem_map.mp hg
    rcases hgroup l with h|h
    · exact Or.inl h
    · refine Or.inr ?_
      rw [h]
      have hsub := sublist_flatten_of_mem hl
      rwa [pieces_flatten le_rfl] at hsub

theorem mem_sectorLast {sector : Nat} : q∈sectorLast sector qs ↔ q∈qs := by
  by_cases h : q.sector=sector <;> simp [sectorLast,h]

theorem lastOf_sectorLast {medium : Nat → UInt8} {x : Place × Nat} {v : UInt8} (hq : q∈qs)
    (hv : readByte medium q x=some v) (hsole : ∀ r∈qs,r.sector=q.sector → r=q) :
    lastOf ((sectorLast q.sector qs).map (readByte medium)) x=some v := by
  have hend : lastOf ((qs.filter fun r => r.sector=q.sector).map (readByte medium)) x=some v := by
    have hagree : AgreeAt ((qs.filter fun r => r.sector=q.sector).map (readByte medium)) x := by
      have hall : ∀ p∈(qs.filter fun r => r.sector=q.sector).map (readByte medium),
          p=readByte medium q := by
        intro p hp
        obtain ⟨r,hr,rfl⟩ := mem_map.mp hp
        obtain ⟨hrm,hrs⟩ := mem_filter.mp hr
        rw [hsole r hrm (by simpa using hrs)]
      intro p hp p' hp' w w' hw hw'
      rw [hall p hp] at hw
      rw [hall p' hp',hw] at hw'
      exact Option.some.inj hw'
    exact hagree.lastOf_eq (mem_map_of_mem (mem_filter.mpr ⟨hq,by simp⟩)) hv
  rw [sectorLast,map_append,lastOf_append,hend]
  rfl

theorem lastOf_reordered {medium : Nat → UInt8} {x : Place × Nat} {gs : List (List IoRequest)}
    (h : lastOf (gs.map (map (readByte medium))).flatten x=none) :
    lastOf ((gs.map (sectorLast sector)).map (map (readByte medium))).flatten x=none := by
  rw [lastOf_eq_none] at h ⊢
  intro p hp
  apply h
  simp only [mem_flatten,mem_map,exists_exists_and_eq_and] at hp ⊢
  obtain ⟨g,hg,q,hq,rfl⟩ := hp
  exact ⟨g,hg,q,mem_sectorLast.mp hq,rfl⟩

theorem forall₂_eq_map {α β : Type} {f : α → β} {as : List α} {bs : List β}
    (h : Forall₂ (fun a b => b=f a) as bs) : bs=as.map f :=
  forall₂_eq_eq_eq ▸ forall₂_map_right_iff.mpr h.flip

theorem readFits_of_same (ha : Ample env) (hidle : Idle s) (hmany : qs.length ≤ batchMax)
    (hone : ∀ q∈qs,OneFits env .read q) (hplace : ∀ q∈qs,∀ n,q.data.place≠.bounce n)
    (hapart : qs.Pairwise Apart)
    (h : ∀ turn,Prompt (env.turning turn) → SameResult (diskReadBatch (env.turning turn) qs s)
        (oneByOne (env.turning turn) .read qs s)) : ReadFits env s.medium qs := by
  have hone' : ∀ turn,∀ q∈qs,OneFits (env.turning turn) .read q := fun turn q hq =>
    (OneFits.turning turn).mpr (hone q hq)
  have hspec := fun sector => diskReadBatch_spec (ha.turning (lastTurn sector))
    (lastTurn_prompt env sector) (lastTurn_orders ha sector) hidle hmany
    (hone' (lastTurn sector))
  obtain ⟨hseveral,hfits⟩ := (hspec 0).1.mp (h _ (lastTurn_prompt env 0)).1
  have hfits : ∀ g∈readPlan env qs,∀ m∈g,OneFits env .read m := fun g hg m hm =>
    (OneFits.turning _).mp (hfits g hg m hm)
  refine ⟨hseveral,hfits,fun x => ?_⟩
  by_contra hnot
  obtain ⟨front,g,rest,hplan,hnone,p,hp,v,hv,hne⟩ := not_settledAt hnot
  obtain ⟨front',tail,hsplit,rfl,htail⟩ := map_eq_append_iff.mp hplan
  obtain ⟨g',rest',rfl,rfl,rfl⟩ := map_eq_cons_iff.mp htail
  obtain ⟨q,hq,rfl⟩ := mem_map.mp hp
  -- the group has several commands, so it is a part of the batch
  have hsub : g'.Sublist qs := by
    have hg : g'∈readPlan env qs := hsplit ▸ mem_append_right _ mem_cons_self
    rcases readPlan_group hg with ⟨m,rfl⟩|hsub
    · obtain rfl := mem_singleton.mp hq
      rw [map_singleton,lastOf_singleton] at hne
      exact absurd hv hne
    · exact hsub
  have hsole : ∀ r∈g',r.sector=q.sector → r=q := by
    intro r hr hsec
    by_contra hrq
    have hap := hapart.forall (hsub.subset hr) (hsub.subset hq) hrq
    have hpos := bad_eq_false.mp (hone q (hsub.subset hq)).good
    have hpos' := bad_eq_false.mp (hone r (hsub.subset hr)).good
    simp only [Apart,lbaUnit] at *
    omega
  -- this device leaves the read of q for the end
  have hprompt := lastTurn_prompt env q.sector
  obtain ⟨hcode,-,hmem⟩ := h _ hprompt
  obtain ⟨-,xss,hxss,heffect⟩ := (hspec q.sector).2 ⟨hseveral,fun g hg m hm =>
    (OneFits.turning _).mpr (hfits g hg m hm)⟩
  have hxss : xss=(readPlan env qs).map (sectorLast q.sector) := forall₂_eq_map hxss
  have hseq := oneByOne_effect (ha.turning (lastTurn q.sector)) hprompt hidle
    (hone' (lastTurn q.sector))
  have hbatch : lastOf (xss.map (map (readByte s.medium))).flatten x=some v := by
    rw [hxss,hsplit]
    simp only [map_append,map_cons,flatten_append,flatten_cons,lastOf_append,
      lastOf_reordered q.sector hnone,lastOf_sectorLast hq hv hsole]
    rfl
  obtain ⟨w,hw⟩ : ∃ w,lastOf (g'.map (readByte s.medium)) x=some w := by
    cases hg : lastOf (g'.map (readByte s.medium)) x with
    | none => rw [lastOf_eq_none.mp hg _ (mem_map_of_mem hq)] at hv; cases hv
    | some w => exact ⟨w,rfl⟩
  have hsingle : lastOf (qs.map (readByte s.medium)) x=some w := by
    rw [← readPlan_last,hplan]
    simp [lastOf_append,hnone,hw]
  have hin : x.1=q.data.place := by
    by_contra hout
    simp [readByte,hout] at hv
  have hsame := congrFun (hmem x.1 fun n => hin ▸ hplace q (hsub.subset hq) n) x.2
  rw [effect_read_byte heffect,hseq.1,readAll,overlay_apply,hbatch,hsingle] at hsame
  rw [hw] at hne
  exact hne (congrArg some hsame.symm)

end Kobox.Nvme
