/-
# Facades of remote services

A facade keeps a member for each name, with the kind a snapshot recorded for it and its replica.  A
snapshot is staged as a whole before anything of it is kept.
-/

import PiOxidized.Math.Fallible
import PiOxidized.Service.Replicated.State
import PiOxidized.Service.Utf16
import PiOxidized.Service.Wire

namespace PiOxidized.Service

open List Math Delta Replicated OrderedMap

/-- The characters of some code units, a replacement for each unpaired surrogate. -/
def JsString.lossy : List UInt16 → List Char
  | [] => []
  | [unit] => [(scalar unit.toNat).getD '\uFFFD']
  | unit :: next :: rest =>
    if isHigh unit && isLow next then (scalar (pair unit next)).getD '\uFFFD' :: lossy rest
    else (scalar unit.toNat).getD '\uFFFD' :: lossy (next :: rest)

def displayJs (value : JsString) : String := String.ofList (JsString.lossy value.units)

inductive MemberKind
  | method
  | state
  deriving DecidableEq

namespace MemberKind

def fromSnapshot : ServiceMemberSnapshot DeltaOp → MemberKind
  | .method _ => method
  | .state .. => state

def toString : MemberKind → String
  | method => "Method"
  | state => "State"

end MemberKind

def ServiceMemberSnapshot.name : ServiceMemberSnapshot DeltaOp → JsString
  | .method name | .state name _ _ => name

/-- A member's kind as recorded and as used, and its replica. -/
structure RemoteServiceMember where
  actual : Option MemberKind := none
  expected : Option MemberKind := none
  state : ReplicaInner := ReplicaInner.new

structure RemoteServiceFacade where
  serviceId : JsString
  address : Option ServiceInstanceAddress
  revision : Nat
  active : Bool
  members : OrderedMap JsString RemoteServiceMember
  descriptions : OrderedMap JsString MemberKind

namespace RemoteServiceMember

def checkKind (member : RemoteServiceMember) (name : JsString) (kind : MemberKind) :
    Except ServiceError Unit :=
  if member.actual.any (· ≠ kind) then
    .error (.localUsage s!"Remote service member {displayJs name} changed kind")
  else
    match member.expected with
    | some expected =>
      if expected ≠ kind then
        .error (.remote ⟨.serviceMemberMismatch, s!"Remote service member {displayJs name} is " ++
          s!"{kind.toString}, not {expected.toString}"⟩)
      else .ok ()
    | none => .ok ()

variable [SerdeJson]

def applyUpdate (member : RemoteServiceMember) (name : JsString) (sequence : JsInteger)
    (ops : List DeltaOp) : Except ServiceError Unit × RemoteServiceMember :=
  match member.checkKind name .state with
  | .error error => (.error error, member)
  | .ok () =>
    let (result, state) := member.state.applyUpdate sequence ops
    (result, { member with actual := some .state, state := state })

end RemoteServiceMember

/-- The names are distinct and not empty. -/
def validateMembers (known : List JsString) :
    List (ServiceMemberSnapshot DeltaOp) → Except ServiceError Unit
  | [] => .ok ()
  | member :: members =>
    if member.name.units.isEmpty || known.contains member.name then
      .error (.localUsage "Remote service has invalid member descriptions")
    else validateMembers (member.name :: known) members

def sameAddress (left right : Option ServiceInstanceAddress) : Bool := match left, right with
  | none, none => true
  | some left, some right => left == right
  | _, _ => false

def require (condition : Bool) (error : ServiceError) : Except ServiceError Unit :=
  if condition then .ok () else .error error

/-- What is kept of a member once all are staged. -/
structure StagedMember where
  name : JsString
  kind : MemberKind
  hydration : Option (JsInteger × JsonValue)

namespace RemoteServiceFacade

variable [SerdeJson]

def stageMember (facade : RemoteServiceFacade) (member : ServiceMemberSnapshot DeltaOp) :
    Except ServiceError StagedMember := do
  (facade.members.get? member.name).elim (.ok ()) fun slot =>
    slot.checkKind member.name (.fromSnapshot member)
  match member with
  | .method name => .ok ⟨name, .method, none⟩
  | .state name sequence ops =>
    let value ← ReplicaInner.stageHydration ops
    .ok ⟨name, .state, some (sequence, value)⟩

/-- Keep a staged member: its kind, and its revision if it is a state. -/
def commitMember (members : OrderedMap JsString RemoteServiceMember) (staged : StagedMember) :
    OrderedMap JsString RemoteServiceMember :=
  let slot := (members.get? staged.name).getD {}
  members.insert staged.name { slot with
    actual := some staged.kind
    state := staged.hydration.elim slot.state fun (sequence, value) => ⟨some value, some sequence⟩ }

def stage (facade : RemoteServiceFacade) (snapshot : ServiceInstanceSnapshot DeltaOp)
    (expectedRevision : Nat) : Except ServiceError (List StagedMember) := do
  require (sameAddress snapshot.address facade.address)
    (.localUsage "Remote service snapshot has the wrong address")
  validateMembers [] snapshot.members
  require (facade.revision == expectedRevision)
    (.localUsage "Remote service install was superseded by a binding transition")
  facade.members.entries.forM fun (name, _) =>
    require ((snapshot.members.map (·.name)).contains name) (.remote ⟨.serviceMemberNotFound,
      s!"Unknown remote service member {displayJs facade.serviceId}.{displayJs name}"⟩)
  snapshot.members.mapM facade.stageMember

def install (facade : RemoteServiceFacade) (snapshot : ServiceInstanceSnapshot DeltaOp)
    (expectedRevision : Nat) : Except ServiceError Unit × RemoteServiceFacade :=
  match facade.stage snapshot expectedRevision with
  | .error error => (.error error, facade)
  | .ok staged =>
    (.ok (), { facade with
      descriptions := staged.foldl (fun kinds member => kinds.insert member.name member.kind) ∅
      members := staged.foldl commitMember facade.members
      active := true })

def update (facade : RemoteServiceFacade) (member : JsString) (sequence : JsInteger)
    (ops : List DeltaOp) (expectedRevision : Nat) :
    Except ServiceError Unit × RemoteServiceFacade :=
  if facade.revision ≠ expectedRevision then
    (.error (.localUsage "Remote service update was superseded by a binding transition"), facade)
  else if facade.descriptions.get? member ≠ some .state then
    (.error (.localUsage s!"Remote service update targets non-state member {displayJs
      facade.serviceId}.{displayJs member}"), facade)
  else
    let (result, slot) := ((facade.members.get? member).getD {}).applyUpdate member sequence ops
    (result, { facade with members := facade.members.insert member slot })

def clear (facade : RemoteServiceFacade) : RemoteServiceFacade :=
  { facade with members := facade.members.map fun member =>
      { member with state := member.state.clear } }

inductive Call
  | install (snapshot : ServiceInstanceSnapshot DeltaOp) (expectedRevision : Nat)
  | update (member : JsString) (sequence : JsInteger) (ops : List DeltaOp) (expectedRevision : Nat)
  | clear

def after (facade : RemoteServiceFacade) : Call → RemoteServiceFacade
  | .install snapshot expectedRevision => (facade.install snapshot expectedRevision).2
  | .update member sequence ops expectedRevision =>
    (facade.update member sequence ops expectedRevision).2
  | .clear => facade.clear

/-- What a state of a snapshot makes of its replica. -/
def Hydrated (state : ReplicaInner) : ServiceMemberSnapshot DeltaOp → Prop
  | .method _ => True
  | .state _ sequence ops => ∃ value, ReplicaInner.stageHydration ops = .ok value ∧
      state = ⟨some value, some sequence⟩

/-- A facade shows a snapshot and nothing else. -/
structure Installed (snapshot : ServiceInstanceSnapshot DeltaOp) (facade : RemoteServiceFacade) :
    Prop where
  members : ∀ member ∈ snapshot.members, ∃ slot, facade.members.get? member.name = some slot ∧
    slot.actual = some (.fromSnapshot member) ∧ Hydrated slot.state member
  descriptions : ∀ member ∈ snapshot.members,
    facade.descriptions.get? member.name = some (.fromSnapshot member)
  only : ∀ name, name ∉ snapshot.members.map (·.name) →
    facade.members.get? name = none ∧ facade.descriptions.get? name = none

/-- Every replica has a value exactly when it has a sequence. -/
def Paired (facade : RemoteServiceFacade) : Prop :=
  ∀ name slot, facade.members.get? name = some slot →
    slot.state.value.isSome = slot.state.sequence.isSome

variable {facade : RemoteServiceFacade} {snapshot : ServiceInstanceSnapshot DeltaOp}
  {members : List (ServiceMemberSnapshot DeltaOp)} {staged : List StagedMember} {name : JsString}

omit [SerdeJson] in
theorem nodup_of_validateMembers {known : List JsString}
    (h : validateMembers known members = .ok ()) :
    (members.map (·.name)).Nodup ∧ ∀ member ∈ members, member.name ∉ known := by
  induction members generalizing known with
  | nil => exact ⟨nodup_nil, nofun⟩
  | cons member members ih =>
    rw [validateMembers] at h
    split_ifs at h with hknown
    obtain ⟨hnodup, hfrs⟩ := ih h
    have hnew : member.name ∉ known := fun hmem => hknown (by simp [hmem])
    refine ⟨nodup_cons.mpr ⟨?_, hnodup⟩, forall_mem_cons.mpr ⟨hnew, fun other hmem hold => ?_⟩⟩
    · intro hmem
      obtain ⟨other, hoth, hname⟩ := mem_map.mp hmem
      exact hfrs other hoth (hname ▸ mem_cons_self)
    · exact hfrs other hmem (mem_cons_of_mem _ hold)

theorem stageMember_ok {member : ServiceMemberSnapshot DeltaOp} {entry : StagedMember}
    (h : facade.stageMember member = .ok entry) : entry.name = member.name ∧
      entry.kind = .fromSnapshot member ∧ ∀ state : ReplicaInner,
        Hydrated (entry.hydration.elim state fun (sequence, value) => ⟨some value, some sequence⟩)
          member := by
  obtain ⟨_, -, hstaged⟩ := bind_ok h
  cases member with
  | method name =>
    cases hstaged
    exact ⟨rfl, rfl, fun _ => trivial⟩
  | state name sequence ops =>
    obtain ⟨value, hvalue, hent⟩ := bind_ok hstaged
    cases hent
    exact ⟨rfl, rfl, fun _ => ⟨value, hvalue, rfl⟩⟩

/-- Every member is staged, under its name. -/
theorem mapM_stageMember (h : members.mapM facade.stageMember = .ok staged) :
    staged.map (·.name) = members.map (·.name) ∧
      ∀ member ∈ members, ∃ entry ∈ staged, facade.stageMember member = .ok entry := by
  induction members generalizing staged with
  | nil =>
    cases h
    exact ⟨rfl, nofun⟩
  | cons member members ih =>
    rw [mapM_cons] at h
    obtain ⟨entry, hent, h⟩ := bind_ok h
    obtain ⟨rest, hrest, h⟩ := bind_ok h
    cases h
    obtain ⟨hnames, hstaged⟩ := ih hrest
    refine ⟨by rw [map_cons, map_cons, hnames, (stageMember_ok hent).1], ?_⟩
    refine forall_mem_cons.mpr ⟨⟨entry, mem_cons_self, hent⟩, fun other hmem => ?_⟩
    obtain ⟨found, hfnd, hoth⟩ := hstaged other hmem
    exact ⟨found, mem_cons_of_mem _ hfnd, hoth⟩

section

variable {V : Type} {slots : OrderedMap JsString V}
  (value : OrderedMap JsString V → StagedMember → V)

omit [SerdeJson] in
/-- Keeping the staged members leaves the others as they are. -/
theorem get?_foldl_insert_of_notMem (h : name ∉ staged.map (·.name)) :
    (staged.foldl (fun slots entry => slots.insert entry.name (value slots entry)) slots).get?
      name = slots.get? name := by
  induction staged generalizing slots with
  | nil => rfl
  | cons entry staged ih =>
    rw [map_cons, mem_cons, not_or] at h
    rw [foldl_cons, ih h.2, get?_insert, if_neg h.1]

omit [SerdeJson] in
/-- Each of distinct staged members is kept. -/
theorem get?_foldl_insert (h : (staged.map (·.name)).Nodup) {entry : StagedMember}
    (hent : entry ∈ staged) : ∃ before,
      (staged.foldl (fun slots entry => slots.insert entry.name (value slots entry)) slots).get?
        entry.name = some (value before entry) := by
  induction staged generalizing slots with
  | nil => cases hent
  | cons first staged ih =>
    obtain ⟨hfst, hnodup⟩ := nodup_cons.mp h
    rcases mem_cons.mp hent with rfl | hmem
    · refine ⟨slots, ?_⟩
      rw [foldl_cons, get?_foldl_insert_of_notMem value hfst, get?_insert, if_pos rfl]
    · exact ih hnodup hmem

end

/-- A snapshot accepted is shown. -/
theorem installed_of_stage {rev : Nat} (h : facade.stage snapshot rev = .ok staged) :
    Installed snapshot (facade.install snapshot rev).2 := by
  rw [install, h]
  obtain ⟨_, -, h⟩ := bind_ok h
  obtain ⟨⟨⟩, hval, h⟩ := bind_ok h
  obtain ⟨_, -, h⟩ := bind_ok h
  obtain ⟨⟨⟩, hslots, hstaged⟩ := bind_ok h
  obtain ⟨hnames, hmembers⟩ := mapM_stageMember hstaged
  have hnodup := (nodup_of_validateMembers hval).1
  rw [← hnames] at hnodup
  constructor
  · intro member hmem
    obtain ⟨entry, hent, hok⟩ := hmembers member hmem
    obtain ⟨hname, hkind, hhyd⟩ := stageMember_ok hok
    obtain ⟨before, hget⟩ := get?_foldl_insert _ hnodup hent
    exact ⟨_, hname ▸ hget, congrArg some hkind, hhyd _⟩
  · intro member hmem
    obtain ⟨entry, hent, hok⟩ := hmembers member hmem
    obtain ⟨hname, hkind, -⟩ := stageMember_ok hok
    obtain ⟨_, hget⟩ := get?_foldl_insert (fun _ entry => entry.kind) hnodup hent
    rw [← hname, ← hkind]
    exact hget
  · intro name hname
    have hfrs := hname
    rw [← hnames] at hfrs
    refine ⟨(get?_foldl_insert_of_notMem _ hfrs).trans ?_,
      get?_foldl_insert_of_notMem (fun _ entry => entry.kind) hfrs⟩
    cases hslot : facade.members.get? name with
    | none => rfl
    | some slot =>
      have hlisted := Except.forM_eq_ok hslots _ (Assoc.mem_of_lookup_eq_some hslot)
      simp only [require] at hlisted
      rw [if_neg (by simpa using hname)] at hlisted
      cases hlisted

/-- The ways an update of a member can go. -/
theorem applyUpdate_cases (slot : RemoteServiceMember) (member : JsString) (sequence : JsInteger)
    (ops : List DeltaOp) :
    (slot.applyUpdate member sequence ops).2.state = slot.state ∨
    ((slot.applyUpdate member sequence ops).1 = .error (.state .sequenceGap) ∧
      (slot.applyUpdate member sequence ops).2.state = slot.state.clear) ∨
    (slot.applyUpdate member sequence ops).1 = .ok () ∧
      ∃ value, (slot.applyUpdate member sequence ops).2.state = ⟨some value, some sequence⟩ := by
  unfold RemoteServiceMember.applyUpdate ReplicaInner.applyUpdate
  split
  · exact .inl rfl
  · dsimp only
    split
    · split_ifs
      · exact .inr (.inl ⟨rfl, rfl⟩)
      · split
        · exact .inl rfl
        · exact .inl rfl
        · split_ifs
          · exact .inl rfl
          · exact .inr (.inr ⟨rfl, _, rfl⟩)
    · exact .inl rfl

omit [SerdeJson] in
theorem paired_foldl_commitMember {slots : OrderedMap JsString RemoteServiceMember}
    (h : ∀ name slot, slots.get? name = some slot →
      slot.state.value.isSome = slot.state.sequence.isSome) :
    ∀ name slot, (staged.foldl commitMember slots).get? name = some slot →
      slot.state.value.isSome = slot.state.sequence.isSome := by
  induction staged generalizing slots with
  | nil => exact h
  | cons entry staged ih =>
    refine ih fun name slot hslot => ?_
    rw [commitMember, get?_insert] at hslot
    split_ifs at hslot
    · cases hslot
      cases entry.hydration with
      | some => rfl
      | none =>
        cases hold : slots.get? entry.name with
        | none => rfl
        | some slot => exact h _ slot hold
    · exact h name slot hslot

theorem paired_applyUpdate {slot : RemoteServiceMember}
    (h : slot.state.value.isSome = slot.state.sequence.isSome) (member : JsString)
    (sequence : JsInteger) (ops : List DeltaOp) :
    (slot.applyUpdate member sequence ops).2.state.value.isSome =
      (slot.applyUpdate member sequence ops).2.state.sequence.isSome := by
  obtain hsame | ⟨-, hgap⟩ | ⟨-, value, hvalue⟩ := applyUpdate_cases slot member sequence ops
  · rw [hsame]
    exact h
  · rw [hgap]
    rfl
  · rw [hvalue]
    rfl

theorem Paired.update (h : facade.Paired) (member : JsString) (sequence : JsInteger)
    (ops : List DeltaOp) (rev : Nat) :
    (facade.update member sequence ops rev).2.Paired := by
  rw [RemoteServiceFacade.update]
  split_ifs
  · exact h
  · exact h
  · intro name slot hslot
    rw [get?_insert] at hslot
    split_ifs at hslot
    · cases hslot
      refine paired_applyUpdate ?_ member sequence ops
      cases hold : facade.members.get? member with
      | none => rfl
      | some slot => exact h _ slot hold
    · exact h name slot hslot

theorem Paired.after (h : facade.Paired) (call : Call) : (facade.after call).Paired := by
  cases call with
  | install snapshot rev =>
    show (facade.install snapshot rev).2.Paired
    rw [install]
    split
    · exact h
    · exact paired_foldl_commitMember h
  | update member sequence ops rev => exact h.update member sequence ops rev
  | clear =>
    intro name slot hslot
    obtain ⟨_, -, rfl⟩ := Option.map_eq_some_iff.mp ((get?_map ..).symm.trans hslot)
    rfl

/-- An update that fails without a gap keeps every replica. -/
theorem update_error {member sequence ops rev error}
    (h : (facade.update member sequence ops rev).1 = .error error)
    (hgap : error ≠ .state .sequenceGap) {slot : RemoteServiceMember}
    (hslot : facade.members.get? name = some slot) :
    ∃ slot', (facade.update member sequence ops rev).2.members.get? name =
      some slot' ∧ slot'.state = slot.state := by
  rw [RemoteServiceFacade.update] at h ⊢
  split_ifs at h ⊢
  · exact ⟨slot, hslot, rfl⟩
  · exact ⟨slot, hslot, rfl⟩
  · dsimp only at h ⊢
    rw [get?_insert]
    split_ifs with hname
    · rw [← hname, hslot, Option.getD_some] at h ⊢
      refine ⟨_, rfl, ?_⟩
      obtain hsame | ⟨hclr, -⟩ | ⟨hok, -⟩ := applyUpdate_cases slot name sequence ops
      · exact hsame
      · rw [hclr] at h
        exact absurd (Except.error.inj h).symm hgap
      · rw [hok] at h
        cases h
    · exact ⟨slot, hslot, rfl⟩

/-- A snapshot is installed as a whole or not at all, and replicas stay consistent. -/
theorem facade_consistent (facade : RemoteServiceFacade) : (∀ snapshot rev,
      match facade.install snapshot rev with
      | (.ok (), next) => Installed snapshot next
      | (.error _, next) => next = facade) ∧
    (facade.Paired → ∀ calls : List Call, (calls.foldl after facade).Paired) ∧
    ∀ member sequence ops rev error, (facade.update member sequence ops rev).1 = .error error →
      error ≠ .state .sequenceGap → ∀ name slot, facade.members.get? name = some slot →
      ∃ slot', (facade.update member sequence ops rev).2.members.get? name =
        some slot' ∧ slot'.state = slot.state := by
  refine ⟨fun snapshot rev => ?_, fun h calls => ?_, ?_⟩
  · cases hstage : facade.stage snapshot rev with
    | error error =>
      rw [install, hstage]
    | ok staged =>
      have hinstalled := installed_of_stage hstage
      rw [install, hstage] at hinstalled ⊢
      exact hinstalled
  · induction calls generalizing facade with
    | nil => exact h
    | cons call calls ih => exact ih _ (h.after call)
  · exact fun _ _ _ _ _ h hgap _ _ hslot => update_error h hgap hslot

end RemoteServiceFacade

end PiOxidized.Service
