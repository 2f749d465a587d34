import Mathlib.Tactic

namespace Kobox.Vfs

open List

/-- KB_FS_ACL_USER_OBJ to KB_FS_ACL_OTHER; any other tag is unknown. -/
inductive AclTag
  | userObj | user | groupObj | group | mask | other | unknown
deriving DecidableEq

/-- An entry without its id, which no function here reads. -/
structure AclEntry where
  tag : AclTag
  permission : BitVec 16
deriving DecidableEq

def aclPermissionBits : BitVec 16 := 0o7

def equivLoop : List AclEntry → BitVec 16 → Bool → Except Int (BitVec 16 × Bool)
  | [],mode,notEquivalent => .ok (mode,notEquivalent)
  | e::es,mode,notEquivalent =>
    if e.permission&&&~~~aclPermissionBits≠0 then .error (-22)
    else match e.tag with
      | .userObj => equivLoop es (mode|||e.permission<<<6) notEquivalent
      | .groupObj => equivLoop es (mode|||e.permission<<<3) notEquivalent
      | .other => equivLoop es (mode|||e.permission) notEquivalent
      | .mask => equivLoop es ((mode&&&~~~0o070#16)|||e.permission<<<3) true
      | .user => equivLoop es mode true
      | .group => equivLoop es mode true
      | .unknown => .error (-22)

/-- The value left behind mode_pointer, and whether the entries say more than a mode can. -/
def posixAclEquivMode (acl : Option (List AclEntry)) (mode : BitVec 16) :
    Except Int (BitVec 16 × Bool) :=
  match acl with
  | none => .ok (mode,false)
  | some es => do
    let (m,notEquivalent) ← equivLoop es 0 false
    return ((mode&&&~~~0o777#16)|||m,notEquivalent)

/-- The loop variables: the entries passed so far, the mode, and the places of the entries that
group and mask point to. -/
structure AclScan where
  entries : List AclEntry
  mode : BitVec 16
  group : Option Nat
  mask : Option Nat
  notEquivalent : Bool

def AclScan.push (s : AclScan) (e : AclEntry) : AclScan := {s with entries := s.entries++[e]}

/-- How a class of permissions, at its shift in the mode, is narrowed: the entry's permission and
the mode. -/
abbrev Narrow := Nat → BitVec 16 → BitVec 16 → BitVec 16 × BitVec 16

def AclScan.narrow (set : Narrow) (shift : Nat) (e : AclEntry) (s : AclScan) : AclScan :=
  let (permission,mode) := set shift s.mode e.permission
  {s with mode := mode}.push {e with permission := permission}

def scanAcl (set : Narrow) : List AclEntry → AclScan → Except Int AclScan
  | [],s => .ok s
  | e::es,s =>
    match e.tag with
    | .userObj => scanAcl set es (s.narrow set 6 e)
    | .user => scanAcl set es {s.push e with notEquivalent := true}
    | .group => scanAcl set es {s.push e with notEquivalent := true}
    | .groupObj => scanAcl set es {s.push e with group := some s.entries.length}
    | .other => scanAcl set es (s.narrow set 0 e)
    | .mask =>
      scanAcl set es {s.push e with mask := some s.entries.length,notEquivalent := true}
    | .unknown => .error (-5)

/-- The scan, then the group class through the mask or else the owning group. -/
def maskAcl (set : Narrow) (acl : List AclEntry) (mode : BitVec 16) : Except Int AclScan := do
  let s ← scanAcl set acl ⟨[],mode,none,none,false⟩
  match s.mask <|> s.group with
  | none => .error (-5)
  | some i =>
    match s.entries[i]? with
    | none => .error (-5)
    | some e =>
      let (permission,mode) := set 3 s.mode e.permission
      return {s with entries := s.entries.set i {e with permission := permission},mode := mode}

def createNarrow : Narrow := fun shift mode permission =>
  let p := permission&&&((mode>>>shift)&&&7)
  (p,mode&&&((p<<<shift)|||~~~(7#16<<<shift)))

def posixAclCreateMask (acl : List AclEntry) (mode : BitVec 16) :
    Except Int (List AclEntry × BitVec 16 × Bool) := do
  let s ← maskAcl createNarrow acl mode
  return (s.entries,(mode&&&~~~0o777#16)|||s.mode,s.notEquivalent)

def chmodNarrow : Narrow := fun shift mode _ => ((mode>>>shift)&&&7,mode)

def posixAclChmodMask (acl : List AclEntry) (mode : BitVec 16) : Except Int (List AclEntry) := do
  let s ← maskAcl chmodNarrow acl mode
  return s.entries

/-- A well-formed ACL: canonical order, permissions of three bits, and a mask whenever there are
named entries. -/
structure CanonicalAcl where
  user : BitVec 3
  users : List (BitVec 3)
  group : BitVec 3
  groups : List (BitVec 3)
  mask : Option (BitVec 3)
  other : BitVec 3
  masked : mask=none → users=[] ∧ groups=[]

open CanonicalAcl

def AclTag.entry (tag : AclTag) (p : BitVec 3) : AclEntry := ⟨tag,p.setWidth 16⟩

def CanonicalAcl.entries (a : CanonicalAcl) : List AclEntry :=
  AclTag.userObj.entry a.user::(a.users.map AclTag.user.entry++AclTag.groupObj.entry a.group::
    (a.groups.map AclTag.group.entry++(a.mask.toList.map AclTag.mask.entry++
      [AclTag.other.entry a.other])))

theorem entry_small {p : BitVec 3} : p.setWidth 16&&&~~~aclPermissionBits=0 := by
  ext i hi
  interval_cases i <;> simp [aclPermissionBits]

section

variable {tag : AclTag} (htag : tag=.user ∨ tag=.group) (ps : List (BitVec 3)) (es : List AclEntry)

include htag

theorem equivLoop_named {mode : BitVec 16} (notEquivalent : Bool) :
    equivLoop (ps.map tag.entry++es) mode notEquivalent=
      equivLoop es mode (notEquivalent||!ps.isEmpty) := by
  induction ps generalizing notEquivalent with
  | nil => simp
  | cons p ps ih =>
    obtain rfl | rfl := htag
    all_goals simp [equivLoop,AclTag.entry,entry_small,ih]

theorem scanAcl_named {set : Narrow} (s : AclScan) :
    scanAcl set (ps.map tag.entry++es) s=scanAcl set es {s with
      entries := s.entries++ps.map tag.entry,notEquivalent := s.notEquivalent||!ps.isEmpty} := by
  induction ps generalizing s with
  | nil => simp
  | cons p ps ih =>
    obtain rfl | rfl := htag
    all_goals simp [scanAcl,AclTag.entry,AclScan.push,ih]

end

/-- The permission that the group bits of the mode stand for. -/
def CanonicalAcl.groupClass (a : CanonicalAcl) : BitVec 3 := a.mask.getD a.group

theorem mask_replaces_group {u c o : BitVec 16} {g : BitVec 3} :
    (((u<<<6|||g.setWidth 16<<<3)&&&~~~0o070#16)|||c<<<3)|||o=(u<<<6|||c<<<3)|||o := by
  ext i hi
  interval_cases i <;> simp

/-- On a well-formed ACL user, other and group class are narrowed in this order, and the entries
then spell the three permissions. -/
theorem maskAcl_canonical (set : Narrow) (a : CanonicalAcl) (mode : BitVec 16)
    {u m1 o m2 c m3 : BitVec 16} (hu : set 6 mode (a.user.setWidth 16)=(u,m1))
    (ho : set 0 m1 (a.other.setWidth 16)=(o,m2))
    (hc : set 3 m2 (a.groupClass.setWidth 16)=(c,m3))
    (hsmall : ∀ p∈[u,o,c],p&&&~~~aclPermissionBits=0) :
    ∃ s,maskAcl set a.entries mode=.ok s ∧ s.mode=m3 ∧ s.notEquivalent=a.mask.isSome ∧
      equivLoop s.entries 0 false=.ok ((u<<<6|||c<<<3)|||o,a.mask.isSome) := by
  simp only [forall_mem_cons,not_mem_nil,false_implies,implies_true,and_true] at hsmall
  obtain ⟨su,so,sc⟩ := hsmall
  cases hm : a.mask with
  | none =>
    obtain ⟨h1,h2⟩ := a.masked hm
    have hg : a.groupClass=a.group := by simp [groupClass,hm]
    rw [hg] at hc
    simp [maskAcl,entries,hm,h1,h2,scanAcl,AclTag.entry,AclScan.push,AclScan.narrow,
      hu,ho,hc,bind,Except.bind,pure,Except.pure,equivLoop,su,so,sc]
  | some m =>
    have hg : a.groupClass=m := by simp [groupClass,hm]
    rw [hg] at hc
    simpa [maskAcl,entries,hm,scanAcl,AclTag.entry,AclScan.push,AclScan.narrow,
      hu,ho,hc,bind,Except.bind,pure,Except.pure,equivLoop,su,so,sc,scanAcl_named,equivLoop_named,
      entry_small] using mask_replaces_group

/-- Three classes narrowed one after the other: the mode keeps its other bits and the permissions
left to the entries, all of which it had. -/
theorem createNarrow_bits {mode m1 m2 m3 u o c : BitVec 16} {x y z : BitVec 3}
    (hu : createNarrow 6 mode (x.setWidth 16)=(u,m1))
    (ho : createNarrow 0 m1 (y.setWidth 16)=(o,m2))
    (hc : createNarrow 3 m2 (z.setWidth 16)=(c,m3)) :
    m3=(mode&&&~~~0o777#16)|||((u<<<6|||c<<<3)|||o) ∧
    ((u<<<6|||c<<<3)|||o)&&&(mode&&&0o777#16)=(u<<<6|||c<<<3)|||o ∧
    ∀ p∈[u,o,c],p&&&~~~aclPermissionBits=0 := by
  obtain ⟨rfl,rfl⟩ := hu
  obtain ⟨rfl,rfl⟩ := ho
  obtain ⟨rfl,rfl⟩ := hc
  simp only [forall_mem_cons,not_mem_nil,false_implies,implies_true,and_true]
  refine ⟨?_,?_,?_,?_,?_⟩
  all_goals
    ext i hi
    interval_cases i <;> simp [aclPermissionBits]

theorem chmodNarrow_bits {mode : BitVec 16} :
    (((mode>>>6&&&7)<<<6|||(mode>>>3&&&7)<<<3)|||(mode>>>0&&&7)=mode&&&0o777#16) ∧
    ∀ p∈[mode>>>6&&&7,mode>>>0&&&7,mode>>>3&&&7],p&&&~~~aclPermissionBits=0 := by
  simp only [forall_mem_cons,not_mem_nil,false_implies,implies_true,and_true]
  refine ⟨?_,?_,?_,?_⟩
  all_goals
    ext i hi
    interval_cases i <;> simp [aclPermissionBits]

theorem narrowed_mode (mode w : BitVec 16) {p mode' : BitVec 16} (hp : p&&&(mode&&&0o777#16)=p)
    (hm : mode'=(mode&&&~~~0o777#16)|||((mode&&&~~~0o777#16)|||p)) :
    mode'&&&mode=mode' ∧ mode'&&&~~~0o777#16=mode&&&~~~0o777#16 ∧
    (w&&&~~~0o777#16)|||p=(w&&&~~~0o777#16)|||(mode'&&&0o777#16) := by
  rw [hm,← hp]
  refine ⟨?_,?_,?_⟩
  all_goals
    ext i hi
    interval_cases i <;> simp

/-- On a well-formed ACL chmod_mask makes the entries spell the mode, and create_mask leaves both
equivalent, with no permission the mode did not have. -/
theorem acl_and_mode (a : CanonicalAcl) (mode w : BitVec 16) :
    (∃ es notEquivalent,posixAclChmodMask a.entries mode=.ok es ∧
      posixAclEquivMode (some es) w=
        .ok ((w&&&~~~0o777#16)|||(mode&&&0o777#16),notEquivalent)) ∧
    ∃ es mode' notEquivalent,posixAclCreateMask a.entries mode=.ok (es,mode',notEquivalent) ∧
      mode'&&&mode=mode' ∧ mode'&&&~~~0o777#16=mode&&&~~~0o777#16 ∧
      posixAclEquivMode (some es) w=
        .ok ((w&&&~~~0o777#16)|||(mode'&&&0o777#16),notEquivalent) := by
  constructor
  · obtain ⟨hbits,hsmall⟩ := chmodNarrow_bits
    obtain ⟨s,hs,-,-,he⟩ := maskAcl_canonical chmodNarrow a mode rfl rfl rfl hsmall
    refine ⟨s.entries,a.mask.isSome,?_,?_⟩
    · simp only [posixAclChmodMask,hs]
      rfl
    · simp only [posixAclEquivMode,he,hbits]
      rfl
  · rcases hu : createNarrow 6 mode (a.user.setWidth 16) with ⟨u,m1⟩
    rcases ho : createNarrow 0 m1 (a.other.setWidth 16) with ⟨o,m2⟩
    rcases hc : createNarrow 3 m2 (a.groupClass.setWidth 16) with ⟨c,m3⟩
    obtain ⟨hm3,hp,hsmall⟩ := createNarrow_bits hu ho hc
    obtain ⟨s,hs,hm,hn,he⟩ := maskAcl_canonical createNarrow a mode hu ho hc hsmall
    obtain ⟨h1,h2,h3⟩ := narrowed_mode mode w hp rfl
    refine ⟨s.entries,_,a.mask.isSome,?_,h1,h2,?_⟩
    · simp only [posixAclCreateMask,hs,← hm3,← hm,← hn]
      rfl
    · simp only [posixAclEquivMode,he,← h3]
      rfl

end Kobox.Vfs
