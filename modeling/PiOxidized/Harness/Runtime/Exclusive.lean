/-
# Exclusive admission

The lanes of a session meet in storage only: an id that is taken stays taken, and the records of
a lane change under the guard of its own calls and its own drive.  So what each lane relies on
survives the steps of the others, and with it admission is exclusive over the whole session, as
long as no reservation is dropped and nothing is settled under an admission.
-/

import PiOxidized.Harness.Runtime.Reservations

namespace PiOxidized.Harness.Runtime

open List Bool Math Option
open Session (EntryId SessionError)

variable {M : Type} {name other : LaneName} {shared shared' : Shared M} {lane lane' : Lane M}

/-! ## Steps of other lanes -/

/-- What a step of one lane leaves of another. -/
structure Apart (name : LaneName) (shared shared' : Shared M) : Prop where
  guard : ∀ party, shared.guard = some (name, party) →
    shared'.guard = some (name, party) ∧ shared'.stored = shared.stored
  current : shared'.stored.currentId name = shared.stored.currentId name
  used : ∀ id, shared.stored.operationIdIsUsed id = true →
    shared'.stored.operationIdIsUsed id = true
  operations : ∀ (id : OperationId) (info : OperationMeta),
    shared'.stored.operationMetas.get? id = some info → info.lane = name →
      shared.stored.operationMetas.get? id = some info
  fault : shared.fault.isSome = true → shared'.fault.isSome = true

variable {call : Call M}

variable {lock : Option Party} {data : LaneData}

/-- A step that stores nothing and takes no guard away. -/
theorem Apart.of_stored (hstored : shared'.stored = shared.stored)
    (hguard : ∀ party, shared.guard = some (name, party) → shared'.guard = some (name, party))
    (hfault : shared.fault.isSome = true → shared'.fault.isSome = true) :
    Apart name shared shared' where
  guard := fun party hparty => ⟨hguard party hparty, hstored⟩
  current := by rw [hstored]
  used := by
    rw [hstored]
    exact fun _ hused => hused
  operations := by
    rw [hstored]
    exact fun _ _ hinfo _ => hinfo
  fault := hfault

/-- A step under the guard of another lane. -/
theorem Apart.of_guard {party : Party} (hne : other ≠ name)
    (hguard : shared.guard = some (name, party)) (hfault : shared'.fault = shared.fault)
    (hcur : shared'.stored.currentId other = shared.stored.currentId other)
    (hused : ∀ id, shared.stored.operationIdIsUsed id = true →
      shared'.stored.operationIdIsUsed id = true)
    (hops : ∀ (id : OperationId) (info : OperationMeta),
      shared'.stored.operationMetas.get? id = some info → info.lane = other →
        shared.stored.operationMetas.get? id = some info) :
    Apart other shared shared' where
  guard := by
    intro holder hhold
    rw [hguard] at hhold
    exact absurd (Prod.mk.inj (some.inj hhold)).1.symm hne
  current := hcur
  used := hused
  operations := hops
  fault := by
    rw [hfault]
    exact fun hseal => hseal

/-- The guard is free again. -/
theorem Apart.giveBack {party : Party} (hne : other ≠ name)
    (hguard : shared.guard = some (name, party)) (hstored : shared'.stored = shared.stored)
    (hfault : shared.fault.isSome = true → shared'.fault.isSome = true) :
    Apart other shared shared' := by
  apply Apart.of_stored hstored _ hfault
  intro holder hhold
  rw [hguard] at hhold
  exact absurd (Prod.mk.inj (some.inj hhold)).1.symm hne

/-- The guard was free. -/
theorem Apart.takeGuard (hguard : shared.guard = none) (hstored : shared'.stored = shared.stored)
    (hfault : shared'.fault = shared.fault) : Apart name shared shared' := by
  apply Apart.of_stored hstored
  · intro holder hhold
    rw [hguard] at hhold
    cases hhold
  · rw [hfault]
    exact fun hseal => hseal

theorem Apart.refl (name : LaneName) (shared : Shared M) : Apart name shared shared :=
  .of_stored rfl (fun _ hparty => hparty) fun hseal => hseal

theorem Ordered.of_apart (h : Ordered name shared lane) (hapart : Apart name shared shared') :
    Ordered name shared' lane := by
  have hkps (party : Party) : Keeps name party shared lane shared' lane :=
    ⟨hapart.guard party, fun hlock => ⟨hlock, rfl⟩⟩
  constructor
  case calls =>
    intro i call hcall
    exact (h.calls i call hcall).imp_right fun hord => hord.kept (hkps _)
  case drive => exact fun drive hdrv => (h.drive drive hdrv).kept (hkps _)

/-- A lane stands through the steps of the others. -/
theorem Fits.of_apart (h : Fits name shared lane) (hapart : Apart name shared shared') :
    Fits name shared' lane where
  __ := h
  ordered := h.ordered.of_apart hapart
  kept := fun i call id hcall hid =>
    (h.kept i call id hcall hid).imp_right (And.imp_left (hapart.used id))
  twins := fun i place call call' id hcall hcall' hid hid' =>
    (h.twins i place call call' id hcall hcall' hid hid').imp_right (And.imp_left (hapart.used id))
  committed := by
    rw [hapart.current]
    exact h.committed
  current := by
    rw [hapart.current]
    exact fun id hid => (h.current id hid).imp_right (hapart.used id)
  apart := by
    rw [hapart.current]
    exact h.apart
  memory := by
    rw [hapart.current]
    exact fun id hid => (h.memory id hid).imp_right (Or.imp_right (Or.imp_right hapart.fault))
  ended := by
    rw [hapart.current]
    exact fun drive id hdrv hcom hends =>
      (h.ended drive id hdrv hcom hends).imp_left (hapart.used id)
  single := by
    rw [hapart.current]
    exact fun id info hinfo hlane => h.single id info (hapart.operations id info hinfo hlane) hlane

/-- A call of one lane leaves the others alone. -/
theorem CallMove.apart {i : Nat} {next : CallPhase M} (h : Fits name shared lane)
    (hcall : lane.calls[i]? = some call)
    (hmove : CallMove name shared lane i call.phase next shared' data lock) (hne : other ≠ name) :
    Apart other shared shared' := by
  generalize hph : call.phase = phase at hmove
  cases hmove with
  | build hguard hbuilt => exact .takeGuard hguard rfl rfl
  | @commit upd stored hcom =>
    obtain ⟨hguard, op, base, last, tip, -, hads⟩ := h.guarded hcall hph
    obtain ⟨-, rfl⟩ := Stored.commit_eq_ok hcom
    have hpre (id : OperationId) (info : OperationMeta)
        (hinfo : (shared.stored.apply upd.writes).operationMetas.get? id = some info)
        (hlane : info.lane = other) : shared.stored.operationMetas.get? id = some info := by
      rcases hads.operations id info hinfo with ⟨-, hown⟩ | hpre
      · exact absurd (hlane.symm.trans hown) hne
      · exact hpre
    exact .of_guard hne hguard rfl (hads.others other hne) hads.keeps hpre
  | fault hcom => exact .giveBack hne (h.guarded hcall hph).1 rfl fun _ => rfl
  | _ => exact .refl other shared

/-- A drive of one lane leaves the others alone. -/
theorem DriveMove.apart [Inhabited M] {options : DriveOptions} {phase : DrivePhase M}
    {next : Option (DrivePhase M)} (h : Fits name shared lane)
    (hdrv : lane.drive = some ⟨options, phase⟩)
    (hmove : DriveMove name options shared lane phase next shared' data lock) (hne : other ≠ name) :
    Apart other shared shared' := by
  obtain ⟨id, hends⟩ := h.ending _ hdrv
  cases hmove with
  | answer htold =>
    cases hends with
    | running hends hnext => exact absurd htold Answered.not_publish
  | build hguard hperf hwr => exact .takeGuard hguard rfl rfl
  | commit hcom =>
    obtain ⟨hguard, hwr, data', hperf, -⟩ := h.ordered.drive _ hdrv
    obtain ⟨-, rfl⟩ := Stored.commit_eq_ok hcom
    cases hends with
    | guarded hends hnext =>
      have hsettles := Publish.settlesId hperf hwr hends
      exact .of_guard hne hguard rfl (hsettles.others other hne) hsettles.keeps
        fun id info hinfo _ => (hsettles.operations id info hinfo).2
  | fault hcom => exact .giveBack hne (h.ordered.drive _ hdrv).1 rfl fun _ => rfl
  | _ => exact .refl other shared

/-! ## Steps of a session -/

/-- A new call. -/
theorem Fits.begin (h : Fits name shared lane) (hads : call.request.admits = true)
    (howns : call.phase.owns = none) (hcom : call.phase.isCommitted = false)
    (hstored : shared'.stored = shared.stored) (hfault : shared'.fault = shared.fault)
    (hord : Ordered name shared' { lane with calls := lane.calls ++ [call] }) :
    Fits name shared' { lane with calls := lane.calls ++ [call] } := by
  constructor
  case ordered => exact hord
  case admits =>
    exact forall_concat h.admits hads
  case ending => exact h.ending
  case kept =>
    rw [hstored]
    refine forall_concat₁ h.kept ?_
    intro id hid
    rw [howns] at hid
    cases hid
  case twins =>
    rw [hstored]
    intro i place member member' id hmem hmem' hid hid'
    rcases getElem?_append_cases hmem with hpre | ⟨-, rfl⟩
    · rcases getElem?_append_cases hmem' with hpre' | ⟨-, rfl⟩
      · exact h.twins i place member member' id hpre hpre' hid hid'
      · rw [howns] at hid'
        cases hid'
    · rw [howns] at hid
      cases hid
  case committed =>
    rw [hstored]
    refine forall_concat₁ h.committed ?_
    intro id hmemCom hid
    rw [hcom] at hmemCom
    cases hmemCom
  case current =>
    rw [hstored]
    exact h.current
  case apart =>
    rw [hstored]
    intro id hid i member hmem hres
    rcases getElem?_append_cases hmem with hpre | ⟨-, rfl⟩
    · exact h.apart id hid i member hpre hres
    · rw [howns]
      exact nofun
  case memory =>
    rw [hstored, hfault]
    intro id hid
    refine (h.memory id hid).imp_right (Or.imp_left ?_)
    rintro ⟨i, member, hmem, hres⟩
    exact ⟨i, member, getElem?_append_of_some hmem, hres⟩
  case ended =>
    rw [hstored]
    exact h.ended
  case single =>
    rw [hstored]
    exact h.single

/-- A phase in which an admission may have committed. -/
def CallPhase.mayHaveCommitted : CallPhase M → Bool
  | .committed _ => true
  | .returned (.failed error) => HarnessRuntime.isFaultSealed error
  | .returned _ => true
  | _ => false

variable {upd : Update M}

/-- An admission that is published answers that it was accepted. -/
theorem Built.answer_of_admits {stored : Stored M} {req : CallRequest M} {phase : CallPhase M}
    (h : Built name stored phase upd) (hear : phase.Early name req)
    (hads : req.admits = true) :
    ∃ id kind startedAt, upd.answer = .accepted id kind startedAt := by
  obtain ⟨admission, -, -, -, hupd, -⟩ := h.of_admits hear hads
  cases admission with
  | run operationId messages selected sourceTip settings startedAt =>
    obtain ⟨_, pending, _, rfl⟩ := runUpdate_eq_ok hupd
    exact ⟨_, _, _, rfl⟩
  | prepared op task preparation =>
    obtain ⟨_, rfl⟩ := preparedUpdate_eq_ok hupd
    exact ⟨_, _, _, rfl⟩

/-- A committed admission is accepted, or the harness is sealed. -/
theorem Fits.answer_of_committed {i : Nat} (h : Fits name shared lane)
    (hcall : lane.calls[i]? = some call) (hph : call.phase = .committed upd)
    (hstep : advanceCommitted shared lane i upd = (shared', lane')) :
    ∃ call', lane'.calls[i]? = some call' ∧ call'.phase.mayHaveCommitted = true := by
  have hself (next : CallPhase M) (data : LaneData) (lock : Option Party) :
      (lane.withCall i next data lock).calls[i]? = some ⟨call.request, next⟩ :=
    Lane.getElem?_withCall_self hcall
  obtain ⟨phase, stored, hear, hbuilt⟩ := (h.ordered.calls i call hcall).1.serves_of_committed hph
  obtain ⟨id, kind, startedAt, hans⟩ := hbuilt.answer_of_admits hear (h.admits i call hcall)
  obtain ⟨op, base, last, tip, hpub⟩ := h.isAdmission hcall hph
  have howns : call.phase.owns = some op.info.operationId := by
    rw [hph, CallPhase.owns, hpub]
    rfl
  have hmemo : lane.data.operationId = some op.info.operationId := by
    rcases h.kept i call _ hcall howns with hrem | ⟨-, hnot⟩
    · exact hrem
    · rw [hph] at hnot
      cases hnot
  rw [advanceCommitted] at hstep
  by_cases hseal : (upd.publication.isAdmission && shared.fault.isSome) = true
  · rw [if_pos hseal] at hstep
    obtain ⟨-, rfl⟩ := Prod.mk.inj hstep
    exact ⟨_, hself _ lane.data lane.dataLock, rfl⟩
  · rw [if_neg hseal, hpub, Publication.apply, if_pos hmemo] at hstep
    obtain ⟨-, rfl⟩ := Prod.mk.inj hstep
    refine ⟨_, hself _ _ _, ?_⟩
    rw [hans]
    rfl

namespace HarnessRuntime

variable {s s' : HarnessRuntime M} {i : Nat}

/-- What the lanes of a session rely on, and where its admissions stand. -/
structure Steady (s : HarnessRuntime M) : Prop where
  lanes : ∀ (name : LaneName) (lane : Lane M), s.lanes.get? name = some lane →
    Fits name s.shared lane
  once : s.admitted.Nodup
  used : ∀ id ∈ s.admitted, s.shared.stored.operationIdIsUsed id = true
  writers : ∀ (name : LaneName) (index : Nat), (name, index) ∈ s.writers →
    ∃ (lane : Lane M) (call : Call M), s.lanes.get? name = some lane ∧
      lane.calls[index]? = some call ∧
        ((name, index) ∈ s.dropped ∨ call.phase.mayHaveCommitted = true)

variable {sys : LaneSystem M} {dropped : List (LaneName × Nat)} {call : Call M}

variable {before after : Lane M} {error : SessionError} {lock : Option Party} {next : CallPhase M}
  {id : OperationId} {data : LaneData}

theorem get?_withLane (h : (s.withLane name sys).lanes.get? other = some lane) :
    (other = name ∧ lane = sys.2) ∨ (other ≠ name ∧ s.lanes.get? other = some lane) := by
  rw [withLane, Dict.get?_insert] at h
  split_ifs at h with heq
  · exact .inl ⟨eq_of_beq heq, (some.inj h).symm⟩
  · exact .inr ⟨fun hsame => heq (beq_iff_eq.mpr hsame), h⟩

theorem get?_withLane_self : (s.withLane name sys).lanes.get? name = some sys.2 := by
  rw [withLane, Dict.get?_insert, if_pos (beq_self_eq_true name)]

theorem get?_withLane_of_ne (hne : other ≠ name) :
    (s.withLane name sys).lanes.get? other = s.lanes.get? other := by
  rw [withLane, Dict.get?_insert, if_neg fun heq => hne (eq_of_beq heq)]

theorem exists_other (name : LaneName) : ∃ other : LaneName, other ≠ name := by
  by_cases h : name = ""
  · exact ⟨"a", by rw [h]; decide⟩
  · exact ⟨"", Ne.symm h⟩

section

variable (h : Steady s) (hlane : s.lanes.get? name = some lane) (hfits : Fits name sys.1 sys.2)
  (hapart : ∀ other, other ≠ name → Apart other s.shared sys.1)

include h hlane hfits hapart

/-- One lane goes on; its calls stay where they may have committed, or are dropped. -/
theorem Steady.withDropped (hdrop : ∀ place ∈ s.dropped, place ∈ dropped)
    (hcalls : ∀ (i : Nat) call, lane.calls[i]? = some call →
      ∃ call', sys.2.calls[i]? = some call' ∧ (call.phase.mayHaveCommitted = true →
          (name, i) ∈ dropped ∨ call'.phase.mayHaveCommitted = true)) :
    Steady { s.withLane name sys with dropped := dropped } := by
  constructor
  case lanes =>
    intro other member hmem
    rcases get?_withLane hmem with ⟨rfl, rfl⟩ | ⟨hne, hpre⟩
    · exact hfits
    · exact (h.lanes other member hpre).of_apart (hapart other hne)
  case once => exact h.once
  case used =>
    obtain ⟨other, hne⟩ := exists_other name
    exact fun id hid => (hapart other hne).used id (h.used id hid)
  case writers =>
    intro other i hwriter
    obtain ⟨member, call, hmem, hcall, hstd⟩ := h.writers other i hwriter
    by_cases hne : other = name
    · subst hne
      obtain rfl := some.inj (hmem.symm.trans hlane)
      obtain ⟨call', hcall', haft⟩ := hcalls i call hcall
      refine ⟨sys.2, call', get?_withLane_self, hcall', ?_⟩
      rcases hstd with hgone | hcom
      · exact .inl (hdrop _ hgone)
      · exact haft hcom
    · exact ⟨member, call, (get?_withLane_of_ne hne).trans hmem, hcall, hstd.imp_left (hdrop _)⟩

/-- One lane goes on, and no call is dropped. -/
theorem Steady.withLane (hcalls : ∀ (i : Nat) call, lane.calls[i]? = some call →
      ∃ call', sys.2.calls[i]? = some call' ∧ (call.phase.mayHaveCommitted = true →
          (name, i) ∈ s.dropped ∨ call'.phase.mayHaveCommitted = true)) :
    Steady (s.withLane name sys) := by
  have hnext : Steady { s.withLane name sys with dropped := s.dropped } :=
    h.withDropped hlane hfits hapart (fun _ hplc => hplc) hcalls
  exact hnext

end

/-- The calls beside the one that goes on stay as they are. -/
theorem stands_withCall {stepped : Call M} (hcall : lane.calls[i]? = some stepped)
    (hnext : stepped.phase.mayHaveCommitted = true →
      (name, i) ∈ dropped ∨ next.mayHaveCommitted = true) (place : Nat) (call : Call M)
    (hmem : lane.calls[place]? = some call) :
    ∃ call', (lane.withCall i next data lock).calls[place]? = some call' ∧
      (call.phase.mayHaveCommitted = true →
        (name, place) ∈ dropped ∨ call'.phase.mayHaveCommitted = true) := by
  by_cases hplc : place = i
  · subst hplc
    obtain rfl := some.inj (hmem.symm.trans hcall)
    exact ⟨_, Lane.getElem?_withCall_self hcall, hnext⟩
  · exact ⟨call, Lane.getElem?_withCall_of_ne hmem hplc, .inr⟩

/-- The calls of a lane whose drive goes on. -/
theorem stands_refl (place : Nat) (call : Call M) (hmem : lane.calls[place]? = some call) :
    ∃ call', lane.calls[place]? = some call' ∧ (call.phase.mayHaveCommitted = true →
        (name, place) ∈ dropped ∨ call'.phase.mayHaveCommitted = true) :=
  ⟨call, hmem, .inr⟩

theorem Steady.accept [Inhabited M] {req : CallRequest M} (h : Steady s)
    (hlane : s.lanes.get? name = some lane) (hads : req.admits = true)
    (hstep : stepLane name (s.shared, lane) (.call req) = some sys) :
    Steady (s.withLane name sys) := by
  have hmove := stepLane_moves hstep
  have hord := (h.lanes name lane hlane).ordered.step hmove
  obtain ⟨shared', lane'⟩ := sys
  cases hmove with
  | @begin _ phase issued hfrs hnodup hissued hph =>
    have hquiet : phase.owns = none ∧ phase.isCommitted = false := by
      rcases hph with rfl | ⟨reason, rfl⟩
      · exact ⟨rfl, rfl⟩
      · exact ⟨rfl, rfl⟩
    have hfits : Fits name { s.shared with issued := issued }
        { lane with calls := lane.calls ++ [⟨req, phase⟩] } :=
      (h.lanes name lane hlane).begin hads hquiet.1 hquiet.2 rfl rfl hord
    apply h.withLane hlane hfits
    · exact fun other _ => .of_stored rfl (fun _ hparty => hparty) fun hseal => hseal
    · exact fun place call hcall => ⟨call, getElem?_append_of_some hcall, .inr⟩

theorem Steady.advanceLane [Inhabited M] (h : Steady s) (hlane : s.lanes.get? name = some lane)
    (hstep : stepLane name (s.shared, lane) (.advance i) = some sys) :
    Steady (s.withLane name sys) := by
  have hmove := stepLane_moves hstep
  have hfits := h.lanes name lane hlane
  have hord := hfits.ordered.step hmove
  obtain ⟨shared', lane'⟩ := sys
  cases hmove with
  | @call _ stepped next _ data lock hcall hcallMove =>
    apply h.withLane hlane (hfits.callMove hcall hcallMove hord)
    · exact fun other hne => hcallMove.apart hfits hcall hne
    · apply stands_withCall hcall
      intro hcom
      apply Or.inr
      obtain ⟨found, hfnd, hadv⟩ := bind_eq_some_iff.mp hstep
      obtain rfl := some.inj (hfnd.symm.trans hcall)
      cases hph : found.phase with
      | committed upd =>
        rw [hph, advanceCall] at hadv
        split_ifs at hadv
        obtain ⟨call', hcall', haft⟩ := hfits.answer_of_committed hcall hph (some.inj hadv)
        obtain rfl := some.inj ((Lane.getElem?_withCall_self hcall).symm.trans hcall')
        exact haft
      | returned answer =>
        rw [hph] at hadv
        cases hadv
      | waiting | holding | reserved | snapshot | guarded | missing | listing | undoing =>
        rw [hph] at hcom
        cases hcom

theorem admits_of_guarded (hcall : lane.calls[i]? = some call) (hph : call.phase = .guarded upd) :
    admits lane i = upd.publication.admitted.map (·.info.operationId) := by
  obtain ⟨req, phase⟩ := call
  dsimp only at hph
  subst hph
  rw [admits, hcall]

theorem admits_of_not_guarded (hcall : lane.calls[i]? = some call)
    (hph : ∀ upd, call.phase ≠ .guarded upd) : admits lane i = none := by
  obtain ⟨req, phase⟩ := call
  rw [admits, hcall]
  cases phase with
  | guarded upd => exact absurd rfl (hph upd)
  | _ => rfl

theorem hasCommitted_withCall (hcall : lane.calls[i]? = some call) :
    hasCommitted (lane.withCall i next data lock) i = next.isCommitted := by
  rw [hasCommitted, Lane.getElem?_withCall_self hcall]
  rfl

theorem record_of_hasCommitted (hid : admits before i = some id) (h : hasCommitted after i = true) :
    s.record name i before after =
      { s with admitted := s.admitted ++ [id], writers := s.writers ++ [(name, i)] } := by
  rw [HarnessRuntime.record, hid]
  exact if_pos h

theorem record_of_not_admits (h : admits before i = none) : s.record name i before after = s := by
  rw [HarnessRuntime.record, h]

theorem record_of_not_hasCommitted (h : hasCommitted after i = false) :
    s.record name i before after = s := by
  rw [HarnessRuntime.record]
  cases admits before i with
  | none => rfl
  | some id => exact if_neg (eq_false_iff.mp h)

/-- An admission is taken down as its commit takes its id. -/
theorem Steady.record (h : Steady s') (hid : id ∉ s'.admitted)
    (hused : s'.shared.stored.operationIdIsUsed id = true)
    (hwriter : ∃ (lane : Lane M) (call : Call M), s'.lanes.get? name = some lane ∧
      lane.calls[i]? = some call ∧ call.phase.mayHaveCommitted = true) :
    Steady { s' with
      admitted := s'.admitted ++ [id], writers := s'.writers ++ [(name, i)] } where
  lanes := h.lanes
  once := by
    rw [nodup_append]
    refine ⟨h.once, pairwise_singleton _ id, ?_⟩
    rintro member hmem _ hlast rfl
    rw [mem_singleton.mp hlast] at hmem
    exact hid hmem
  used := by
    exact forall_mem_concat h.used hused
  writers := by
    intro place position hplc
    rcases mem_append.mp hplc with hpre | hlast
    · exact h.writers place position hpre
    · obtain ⟨rfl, rfl⟩ := Prod.mk.inj (mem_singleton.mp hlast)
      obtain ⟨lane, call, hlane, hcall, hcom⟩ := hwriter
      exact ⟨lane, call, hlane, hcall, .inr hcom⟩

/-- A call goes on; what it changes in the stored values is taken down. -/
theorem Steady.advance [Inhabited M] (h : Steady s) (hlane : s.lanes.get? name = some lane)
    (hstep : s.advance name i lane = some s') :
    Steady s' ∧ (s'.shared.stored = s.shared.stored ∨ (name, i) ∈ s'.writers) := by
  obtain ⟨⟨shared', lane'⟩, hsys, rfl⟩ := map_eq_some_iff.mp hstep
  have hsteady := h.advanceLane hlane hsys
  have hfits := h.lanes name lane hlane
  obtain ⟨call, hcall, hadv⟩ := bind_eq_some_iff.mp hsys
  obtain ⟨next, data, lock, hmove, rfl⟩ := advanceCall_moves hadv
  generalize hph : call.phase = phase at hmove
  have hoth (hnot : ∀ upd, phase ≠ .guarded upd) :
      admits lane i = none ∧ shared'.stored = s.shared.stored := by
    refine ⟨admits_of_not_guarded hcall (hph ▸ hnot), ?_⟩
    rcases hmove.commit_cases with hsame | ⟨upd, _, hguarded, -⟩
    · exact hsame
    · exact absurd hguarded (hnot upd)
  cases phase with
  | guarded upd =>
    obtain ⟨-, op, base, last, tip, hpub, hads⟩ := hfits.guarded hcall hph
    have hid : admits lane i = some op.info.operationId := by
      rw [admits_of_guarded hcall hph, hpub]
      rfl
    cases hmove with
    | commit hcom =>
      obtain ⟨-, rfl⟩ := Stored.commit_eq_ok hcom
      rw [record_of_hasCommitted hid (hasCommitted_withCall hcall)]
      have hfree : op.info.operationId ∉ s.admitted := by
        intro hmem
        have hused := h.used _ hmem
        rw [hads.free] at hused
        cases hused
      refine ⟨hsteady.record hfree hads.used ⟨_, _, get?_withLane_self,
        Lane.getElem?_withCall_self hcall, rfl⟩, .inr ?_⟩
      exact mem_append_right _ (mem_singleton_self _)
    | fault hcom =>
      rw [record_of_not_hasCommitted (hasCommitted_withCall hcall)]
      exact ⟨hsteady, .inl rfl⟩
    | build hguard hbuilt => cases hbuilt
    | answer hrets => cases hrets
  | waiting | holding | reserved | snapshot | committed | missing | listing | undoing | returned =>
    obtain ⟨hnone, hsame⟩ := hoth (fun upd hguarded => by cases hguarded)
    rw [record_of_not_admits hnone]
    exact ⟨hsteady, .inl hsame⟩

/-- A reservation is refused before its batch is built. -/
theorem Steady.refuse (h : Steady s) (hlane : s.lanes.get? name = some lane)
    (hstep : s.refuse name i error lane = some s') :
    Steady s' := by
  rw [HarnessRuntime.refuse] at hstep
  split at hstep
  · rename_i req admission hcall
    cases hstep
    have hfits := h.lanes name lane hlane
    have hear : (CallPhase.reserved admission).Early name req := by
      have hsnd := (hfits.ordered.calls i _ hcall).1
      cases hsnd with
      | early hear => exact hear
    have hord : Ordered name s.shared (lane.withCall i
        (.undoing admission.operationId (mapSessionError error)) lane.data lane.dataLock) :=
      hfits.ordered.withCall hcall ⟨.undoing hear, trivial⟩ fun _ _ => .same rfl rfl rfl rfl
    have hnext : Fits name s.shared (lane.withCall i
        (.undoing admission.operationId (mapSessionError error)) lane.data lane.dataLock) := by
      apply hfits.goOn hcall hord rfl (fun hseal => hseal) rfl rfl (.inr ⟨rfl, rfl⟩)
      · intro owned _ hfirm
        cases hfirm
      · intro owned hnone
        cases hnone
    apply h.withLane hlane hnext
    · exact fun other _ => .refl other s.shared
    · apply stands_withCall hcall
      intro hcom
      cases hcom
  · cases hstep

theorem guard_releaseGuard {party holder : Party} (h : shared.guard = some (other, holder))
    (hne : (other, holder) ≠ (name, party)) :
    (releaseGuard shared name party).guard = some (other, holder) := by
  rw [releaseGuard, if_neg]
  · exact h
  · rw [h]
    exact fun hsame => hne (some.inj hsame)

/-- A call that is dropped leaves no reservation behind. -/
theorem Steady.drop (h : Steady s) (hlane : s.lanes.get? name = some lane)
    (hcare : ∀ call, lane.calls[i]? = some call → call.phase.reserves = true →
      lane.data.operationId ≠ call.phase.owns)
    (hstep : s.drop name i lane = some s') : Steady s' := by
  rw [HarnessRuntime.drop] at hstep
  split at hstep
  · cases hstep
  · rename_i call hcall
    split_ifs at hstep
    cases hstep
    have hfits := h.lanes name lane hlane
    have hkps (party : Party) (hne : party ≠ .call i) : Keeps name party s.shared lane
        (releaseGuard s.shared name (.call i))
        (lane.withCall i (.returned (.failed (.closed "dropped"))) lane.data lane.dataLock) := by
      refine ⟨fun hguard => ⟨guard_releaseGuard hguard ?_, rfl⟩, fun hlock => ⟨hlock, rfl⟩⟩
      exact fun hsame => hne (Prod.mk.inj hsame).2
    have hord : Ordered name (releaseGuard s.shared name (.call i)) (lane.withCall i
        (.returned (.failed (.closed "dropped"))) lane.data lane.dataLock) :=
      hfits.ordered.withCall hcall ⟨.returned (.inl (.failed _)), trivial⟩ hkps
    have hnext : Fits name (releaseGuard s.shared name (.call i)) (lane.withCall i
        (.returned (.failed (.closed "dropped"))) lane.data lane.dataLock) := by
      apply hfits.goOn hcall hord rfl (fun hseal => hseal) rfl rfl (.inl rfl)
      · intro owned hnone
        cases hnone
      · intro owned _ hown hrem
        cases hcom : call.phase.isCommitted with
        | true => exact .inl (hfits.committed i call owned hcall hcom hown)
        | false =>
          exact absurd (hrem.trans hown.symm)
            (hcare call hcall (CallPhase.reserves_of_owns hown hcom))
    apply h.withDropped hlane hnext
    · intro other hne
      have hapart : Apart other s.shared (releaseGuard s.shared name (.call i)) := by
        apply Apart.of_stored
        · rfl
        · exact fun party hparty =>
            guard_releaseGuard hparty fun hsame => hne (Prod.mk.inj hsame).1
        · exact fun hseal => hseal
      exact hapart
    · exact fun place hplc => mem_append_left _ hplc
    · apply stands_withCall hcall
      exact fun _ => .inl (mem_append_right _ (mem_singleton_self _))

theorem Ending.ends (op : Operation) (ending : Ending) :
    (DrivePhase.running (ending.program op) : DrivePhase M).Ends op.info.operationId := by
  cases ending with
  | settle | navigate =>
    exact .running (beq_self_eq_true _) fun record => ⟨record, rfl⟩

/-- A drive begins to settle. -/
theorem Steady.settle {ending : Ending} (h : Steady s) (hlane : s.lanes.get? name = some lane)
    (hstep : s.settle name ending lane = some s') : Steady s' := by
  rw [HarnessRuntime.settle] at hstep
  split at hstep
  · cases hstep
  · rename_i op hop
    split_ifs at hstep with hfree
    cases hstep
    have hfits := h.lanes name lane hlane
    have hnone : lane.drive = none := by
      rw [and_eq_true, and_eq_true] at hfree
      exact isNone_iff_eq_none.mp hfree.1.1
    have hord : Ordered name s.shared (lane.setDrive ⟨op.info.operationId, false, false⟩
        (.running (ending.program op))) := by
      constructor
      case calls =>
        exact fun place call hcall => (hfits.ordered.calls place call hcall).imp_right
          fun hcallOrdered => hcallOrdered.kept (.same rfl rfl rfl rfl)
      case drive =>
        intro drive hdrv
        cases hdrv
        trivial
    have hnext : Fits name s.shared (lane.setDrive ⟨op.info.operationId, false, false⟩
        (.running (ending.program op))) := by
      apply hfits.driveOn hord rfl fun hseal => hseal
      · intro drive hdrv
        rw [hnone] at hdrv
        cases hdrv
      · intro drive hdrv
        cases hdrv
        exact ⟨rfl, _, Ending.ends op ending⟩
    apply h.withLane hlane hnext
    · exact fun other _ => .refl other s.shared
    · exact stands_refl

/-- A drive goes on to settle. -/
theorem Steady.drive [Inhabited M] {surroundings : Surroundings M} (h : Steady s)
    (hlane : s.lanes.get? name = some lane) (hcare : Careful s (.drive name surroundings))
    (hstep : stepLane name (s.shared, lane) (.drive surroundings) = some sys) :
    Steady (s.withLane name sys) := by
  have hmove := stepLane_moves hstep
  have hfits := h.lanes name lane hlane
  have hord := hfits.ordered.step hmove
  obtain ⟨shared', lane'⟩ := sys
  cases hmove with
  | @drive _ options phase next _ data lock hdrv hdriveMove =>
    have hguarded : ∀ p perf writes next, phase = .guarded p perf writes next →
          (∀ call ∈ lane.calls, call.phase.isCommitted = false) ∧
            ∀ id, lane.data.operationId = some id → p.ends id = true :=
      fun p perf writes next hph =>
        hcare lane ⟨options, phase⟩ hlane hdrv p perf writes next hph
    apply h.withLane hlane (hfits.driveMove hdrv hdriveMove hguarded hord)
    · exact fun other hne => hdriveMove.apart hfits hdrv hne
    · exact stands_refl

/-- Storage fails, and the harness is sealed. -/
theorem Steady.fault {party : Party} (h : Steady s) (hlane : s.lanes.get? name = some lane)
    (hstep : s.fault name party error lane = some s') :
    Steady s' := by
  have hfits := h.lanes name lane hlane
  rw [HarnessRuntime.fault.eq_def] at hstep
  simp only at hstep
  split at hstep
  · rename_i place
    split at hstep
    · rename_i req upd hcall
      cases hstep
      obtain ⟨hguard, op, base, last, tip, hpub, hads⟩ := hfits.guarded hcall rfl
      have hholds : upd.publication.holdsData = false := by
        rw [hpub]
        rfl
      rw [hholds]
      have hord (reason : HarnessError) : Ordered name
          { s.shared.seal (commitFaultText error) with guard := none }
          (lane.withCall place (.returned (.failed reason)) lane.data lane.dataLock) :=
        hfits.ordered.withCall hcall ⟨.returned (.inl (.failed _)), trivial⟩
          fun _ hne => .giveBack hguard hne rfl (.inl rfl)
      have hnext (reason : HarnessError) : Fits name
          { s.shared.seal (commitFaultText error) with guard := none }
          (lane.withCall place (.returned (.failed reason)) lane.data lane.dataLock) := by
        apply hfits.goOn hcall (hord reason) rfl (fun _ => rfl) rfl rfl (.inl rfl)
        · intro owned hnone
          cases hnone
        · exact fun owned _ _ _ => .inr rfl
      apply h.withLane hlane (hnext _)
      · exact fun other hne => .giveBack hne hguard rfl fun _ => rfl
      · apply stands_withCall hcall
        intro hcom
        cases hcom
    · cases hstep
  · split at hstep
    · rename_i options p perf writes next hdrv
      cases hstep
      obtain ⟨hguard, -, _, -, hheld⟩ := hfits.ordered.drive _ hdrv
      obtain ⟨id, hends⟩ := hfits.ending _ hdrv
      have hlock : lane.dataLock = some .drive := by
        cases hends with
        | guarded hends hanswers => exact (hheld (Publish.holdsData_of_ends hends)).1
      have hord : Ordered name { s.shared.seal (commitFaultText error) with guard := none }
          { lane.endDrive with dataLock := releaseData p lane.dataLock } := by
        constructor
        case calls =>
          exact fun place call hcall => (hfits.ordered.calls place call hcall).imp_right
            fun hcallOrdered => hcallOrdered.kept (.giveBack hguard (by simp) rfl (.inr hlock))
        case drive =>
          intro drive hnone
          cases hnone
      have hnext : Fits name { s.shared.seal (commitFaultText error) with guard := none }
          { lane.endDrive with dataLock := releaseData p lane.dataLock } := by
        apply hfits.driveOn hord rfl fun _ => rfl
        · intro drive hoth
          rw [← some.inj (hdrv.symm.trans hoth)]
          rfl
        · intro drive hnone
          cases hnone
      apply h.withLane hlane hnext
      · exact fun other hne => .giveBack hne hguard rfl fun _ => rfl
      · exact stands_refl
    · cases hstep

theorem Steady.step [Inhabited M] {event : HarnessEvent M} (h : Steady s)
    (hcare : Careful s event) (hstep : s.step event = some s') : Steady s' := by
  cases event with
  | accept name req =>
    rw [HarnessRuntime.step] at hstep
    split_ifs at hstep with hads
    obtain ⟨lane, hlane, hnext⟩ := bind_eq_some_iff.mp hstep
    obtain ⟨sys, hsys, rfl⟩ := map_eq_some_iff.mp hnext
    exact h.accept hlane hads hsys
  | advance name i =>
    obtain ⟨lane, hlane, hnext⟩ := bind_eq_some_iff.mp hstep
    exact (h.advance hlane hnext).1
  | refuse name i error =>
    obtain ⟨lane, hlane, hnext⟩ := bind_eq_some_iff.mp hstep
    exact h.refuse hlane hnext
  | drop name i =>
    obtain ⟨lane, hlane, hnext⟩ := bind_eq_some_iff.mp hstep
    exact h.drop hlane (fun call hcall => hcare lane call hlane hcall) hnext
  | settle name ending =>
    obtain ⟨lane, hlane, hnext⟩ := bind_eq_some_iff.mp hstep
    exact h.settle hlane hnext
  | drive name surroundings =>
    obtain ⟨lane, hlane, hnext⟩ := bind_eq_some_iff.mp hstep
    obtain ⟨sys, hsys, rfl⟩ := map_eq_some_iff.mp hnext
    exact h.drive hlane hcare hsys
  | fault name party error =>
    obtain ⟨lane, hlane, hnext⟩ := bind_eq_some_iff.mp hstep
    exact h.fault hlane hnext

theorem Rested.steady (h : Rested s) : Steady s := by
  constructor
  case lanes =>
    intro name lane hlane
    obtain ⟨data, rfl, hmirrors⟩ := h.lanes name lane hlane
    constructor
    case ordered =>
      constructor
      · intro i call hcall
        cases hcall
      · intro drive hdrv
        cases hdrv
    case admits =>
      intro i call hcall
      cases hcall
    case ending =>
      intro drive hdrv
      cases hdrv
    case kept =>
      intro i call id hcall
      cases hcall
    case twins =>
      intro i other call call' id hcall
      cases hcall
    case committed =>
      intro i call id hcall
      cases hcall
    case current =>
      intro id hid
      obtain ⟨op, hop, hoperationId, hrecs⟩ := hmirrors.operation id hid
      refine ⟨?_, ?_⟩
      · show data.operation.map _ = _
        rw [hop, ← hoperationId]
        rfl
      · rw [Stored.operationIdIsUsed_eq_true, (Prod.mk.inj hrecs).1]
        exact .inl rfl
    case apart =>
      intro id _ i call hcall
      cases hcall
    case memory =>
      intro id hid
      apply Or.inl
      cases hcur : s.shared.stored.currentId name with
      | none =>
        have hnone : data.operation.map (·.info.operationId) = some id := hid
        rw [hmirrors.idle hcur] at hnone
        cases hnone
      | some other =>
        obtain ⟨op, hop, hoperationId, -⟩ := hmirrors.operation other hcur
        have hsome : data.operation.map (·.info.operationId) = some id := hid
        rw [hop] at hsome
        rw [← hoperationId]
        exact hsome
    case ended =>
      intro drive id hdrv
      cases hdrv
    case single => exact h.operations name _ hlane
  case once => exact h.admitted
  case used => exact fun id hid => (h.used id).mp hid
  case writers =>
    rw [h.writers]
    intro name i hplc
    cases hplc

/-- What the lanes of a session rely on makes admission exclusive. -/
theorem Steady.isExclusive (h : Steady s) : Exclusive s := by
  constructor
  case single => exact fun name lane hlane => (h.lanes name lane hlane).single
  case once => exact h.once
  case unchanged =>
    intro name lane i call error hlane hcall hdrop hph hfault hwriter
    obtain ⟨lane', call', hlane', hcall', hstd⟩ := h.writers name i hwriter
    obtain rfl := some.inj (hlane.symm.trans hlane')
    obtain rfl := some.inj (hcall.symm.trans hcall')
    rcases hstd with hgone | hcom
    · exact hdrop hgone
    · rw [hph, CallPhase.mayHaveCommitted, hfault] at hcom
      cases hcom
  case agrees =>
    intro name lane hlane hlock hfault hretd
    have hfits := h.lanes name lane hlane
    cases hcur : s.shared.stored.currentId name with
    | some id => exact (hfits.current id hcur).1
    | none =>
      cases hmemo : lane.data.operationId with
      | none => rfl
      | some id =>
        rcases hfits.memory id hmemo with hstored | ⟨i, call, hcall, hres, -⟩ |
          ⟨drive, hdrv, hcom⟩ | hseal
        · rw [hcur] at hstored
          cases hstored
        · have hdone := hretd call (mem_of_getElem? hcall)
          cases hph : call.phase with
          | returned answer =>
            rw [hph] at hres
            cases hres
          | _ =>
            rw [hph] at hdone
            cases hdone
        · rw [hfits.not_isCommitted hlock drive hdrv] at hcom
          cases hcom
        · rw [hfault] at hseal
          cases hseal

/-- Only a drive, or an admission that is taken down, changes the stored values. -/
def Recorded [Inhabited M] (s : HarnessRuntime M) : Prop :=
  ∀ (event : HarnessEvent M) (s' : HarnessRuntime M), s.step event = some s' →
    s'.shared.stored = s.shared.stored ∨
      (∃ name index, event = .advance name index ∧ (name, index) ∈ s'.writers) ∨
      ∃ name surroundings, event = .drive name surroundings

theorem Steady.recorded [Inhabited M] (h : Steady s) : Recorded s := by
  intro event s' hstep
  cases event with
  | accept name req =>
    rw [HarnessRuntime.step] at hstep
    split_ifs at hstep
    obtain ⟨lane, hlane, hnext⟩ := bind_eq_some_iff.mp hstep
    obtain ⟨⟨shared', lane'⟩, hsys, rfl⟩ := map_eq_some_iff.mp hnext
    cases stepLane_moves hsys with
    | begin => exact .inl rfl
  | advance name i =>
    obtain ⟨lane, hlane, hnext⟩ := bind_eq_some_iff.mp hstep
    exact (h.advance hlane hnext).2.imp_right fun hwriter => .inl ⟨name, i, rfl, hwriter⟩
  | refuse name i error =>
    obtain ⟨lane, hlane, hnext⟩ := bind_eq_some_iff.mp hstep
    rw [HarnessRuntime.refuse] at hnext
    split at hnext
    · cases hnext
      exact .inl rfl
    · cases hnext
  | drop name i =>
    obtain ⟨lane, hlane, hnext⟩ := bind_eq_some_iff.mp hstep
    rw [HarnessRuntime.drop] at hnext
    split at hnext
    · cases hnext
    · split_ifs at hnext
      cases hnext
      exact .inl rfl
  | settle name ending =>
    obtain ⟨lane, hlane, hnext⟩ := bind_eq_some_iff.mp hstep
    rw [HarnessRuntime.settle] at hnext
    split at hnext
    · cases hnext
    · split_ifs at hnext
      cases hnext
      exact .inl rfl
  | drive name surroundings => exact .inr (.inr ⟨name, surroundings, rfl⟩)
  | fault name party error =>
    obtain ⟨lane, hlane, hnext⟩ := bind_eq_some_iff.mp hstep
    rw [HarnessRuntime.fault.eq_def] at hnext
    simp only at hnext
    split at hnext
    · split at hnext
      · cases hnext
        exact .inl rfl
      · cases hnext
    · split at hnext
      · cases hnext
        exact .inl rfl
      · cases hnext

theorem steady_of_run [Inhabited M] (h : machine.Run Careful s) : Steady s := by
  apply h.invariant
  · exact fun s hs => Rested.steady hs
  · exact fun s s' event hsteady hcare hstep => hsteady.step hcare hstep

/-- In a careful run admission is exclusive and leaves nothing behind. -/
theorem exclusive_of_run [Inhabited M] (h : machine.Run Careful s) : Exclusive s ∧ Recorded s :=
  ⟨(steady_of_run h).isExclusive, (steady_of_run h).recorded⟩

/-- A session in which two lanes have just been created. -/
def createdPair : HarnessRuntime Nat where
  shared :=
    { stored := { createdStored "main" plainConfiguration with
          laneStates := (Dict.empty.insert "main" default).insert "side" default
          branchTips := (Dict.empty.insert "main" none).insert "side" none }
      guard := none
      fault := none
      issued := []
      toolEvents := [] }
  lanes :=
    (Dict.empty.insert "main" (.idle ⟨none, plainConfiguration, default, none, none⟩)).insert "side"
      (.idle ⟨none, plainConfiguration, default, none, none⟩)
  dropped := []
  admitted := []
  writers := []

theorem rested_createdPair : Rested createdPair where
  dropped := rfl
  writers := rfl
  guard := rfl
  fault := rfl
  admitted := nodup_nil
  used := fun id => ⟨fun hid => (not_mem_nil hid).elim, fun hused => by cases hused⟩
  lanes := by
    intro name lane hlane
    have hcases : (name = "side" ∨ name = "main") ∧
        lane = .idle ⟨none, plainConfiguration, default, none, none⟩ := by
      rw [createdPair, Dict.get?_insert, Dict.get?_insert] at hlane
      split_ifs at hlane with hside hmain
      · exact ⟨.inl (eq_of_beq hside), (some.inj hlane).symm⟩
      · exact ⟨.inr (eq_of_beq hmain), (some.inj hlane).symm⟩
      · cases hlane
    obtain ⟨hname, rfl⟩ := hcases
    refine ⟨_, rfl, ?_⟩
    rcases hname with rfl | rfl
    · exact ⟨rfl, rfl, fun _ => rfl, fun id hid => by cases hid⟩
    · exact ⟨rfl, rfl, fun _ => rfl, fun id hid => by cases hid⟩
  operations := fun name lane _ id info hinfo => by cases hinfo

/-- A check for careful steps, with no call dropped. -/
def carefulCheck (s : HarnessRuntime Nat) : HarnessEvent Nat → Bool
  | .drop _ _ => false
  | .drive name _ => (s.lanes.get? name).all fun lane => lane.drive.all fun drive =>
    match drive.phase with
    | .guarded p _ _ _ =>
      lane.calls.all (fun call => !call.phase.isCommitted) && lane.data.operationId.all p.ends
    | _ => true
  | _ => true

/-- Both lanes are asked for one id: it is admitted once and settled. -/
theorem exclusive_twice : ∃ s : HarnessRuntime Nat, (Exclusive s ∧ Recorded s) ∧
    s.admitted = ["a"] ∧ s.writers = [("main", 0)] ∧
      s.shared.stored.operationResults.contains "a" = true := by
  have hstart : (machine : Machine (HarnessRuntime Nat) _).Run Careful createdPair :=
    .start rested_createdPair
  obtain ⟨s, hrun, hs⟩ := hstart.execute carefulCheck
    ([.accept "main" (.acceptRun "a" [("m", .other 0)] plainSettings 0),
      .accept "side" (.acceptRun "a" [("n", .other 0)] plainSettings 0), .advance "main" 0,
      .advance "side" 0, .advance "main" 0, .advance "main" 0, .advance "side" 0,
      .advance "main" 0, .advance "side" 0, .settle "main" (.settle .completed none 1)] ++
      replicate 5 (.drive "main" ⟨plainWorld plainConfiguration, "", ("", .aborted)⟩))
    (fun s => s.admitted == ["a"] && s.writers == [("main", 0)] &&
      s.shared.stored.operationResults.contains "a")
    (by
      intro s event hcheck
      cases event with
      | drop => cases hcheck
      | drive name surroundings =>
        intro lane drive hlane hdrive p performed writes next hphase
        simp only [carefulCheck, hlane, all_some, hdrive, hphase, and_eq_true,
          List.all_eq_true, not_eq_true'] at hcheck
        refine ⟨hcheck.1, fun id hid => ?_⟩
        have hends := hcheck.2
        rw [hid] at hends
        exact hends
      | _ => trivial)
    (by decide +kernel)
  simp only [and_eq_true, beq_iff_eq] at hs
  exact ⟨s, exclusive_of_run hrun, hs.1.1, hs.1.2, hs.2⟩

/-- An admission is dropped after its reservation, and the lane stays busy with nothing stored. -/
theorem drop_leaves_phantom : ¬ ∀ s : HarnessRuntime Nat,
    (machine : Machine (HarnessRuntime Nat) _).Run (fun _ _ => True) s →
      Exclusive s ∧ Recorded s := by
  intro h
  have hstart : (machine : Machine (HarnessRuntime Nat) _).Run (fun _ _ => True) createdPair :=
    .start rested_createdPair
  obtain ⟨s, hrun, hs⟩ := hstart.execute (fun _ _ => true)
    [.accept "main" (.acceptRun "a" [("m", .other 0)] plainSettings 0), .advance "main" 0,
      .drop "main" 0]
    (fun s => (s.lanes.get? "main").any fun lane =>
      lane.dataLock == none && s.shared.fault == none &&
        lane.calls.all (fun call => call.phase.hasReturned) &&
        lane.data.operationId == some "a" && s.shared.stored.currentId "main" == none)
    (fun _ _ _ => trivial)
    (by decide +kernel)
  obtain ⟨lane, hlane, hstate⟩ := (any_eq_true _ _).mp hs
  simp only [and_eq_true, beq_iff_eq, List.all_eq_true] at hstate
  have hagrees := (h s hrun).1.agrees "main" lane hlane hstate.1.1.1.1 hstate.1.1.1.2 hstate.1.1.2
  rw [hstate.1.2, hstate.2] at hagrees
  cases hagrees

end HarnessRuntime

end PiOxidized.Harness.Runtime
