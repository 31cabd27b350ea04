/-
# One codec for each state

Either end of a subscription keeps an operation codec for each state of each instance.  Snapshots
and replacements forget them all before the first batch, and a failure keeps what was registered
until then.  The ends stay in step as long as every message goes through, and a failed call changes
only what is made of later updates of the states it names.
-/

import PiOxidized.Service.Delta.Transaction
import PiOxidized.Service.Wire

namespace PiOxidized.Service

open List Function Delta
open Math (Binary64)

inductive ServiceCodecError
  | duplicateServiceState (address : Option ServiceInstanceAddress) (member : JsString)
  | unknownServiceState (address : Option ServiceInstanceAddress) (member : JsString)
  | delta (error : DeltaError)

/-- An instance and a member; the zeros are one generation. -/
abbrev StateKey := Option (JsString × Binary64) × JsString

def stateKey (address : Option ServiceInstanceAddress) (member : JsString) : StateKey :=
  (address.map fun a => (a.key, a.generation.normalized), member)

/-- The codecs registered. -/
abbrev StateCodecRegistry (C : Type) := StateKey → Option C

/-- A codec of batches: how it starts, and what it makes of the next batch. -/
structure BatchCodec (C A B : Type) where
  fresh : C
  step : C → List A → Except DeltaError (List B) × C

def deltaEncoder : BatchCodec DeltaEncoder DeltaOp WireOp := ⟨.new, DeltaEncoder.encode⟩

def deltaDecoder : BatchCodec DeltaDecoder WireOp DeltaOp := ⟨.new, DeltaDecoder.decode⟩

/-- What a call returns, and the registry it leaves. -/
abbrev Recoded (C Y : Type) := Except ServiceCodecError Y × StateCodecRegistry C

variable {A B C X Y Z : Type}

def Recoded.map (f : Y → Z) (r : Recoded C Y) : Recoded C Z := (Except.map f r.1, r.2)

namespace StateCodecRegistry

def reset (_codecs : StateCodecRegistry C) : StateCodecRegistry C := fun _ => none

def add (codecs : StateCodecRegistry C) (fresh : C) (address : Option ServiceInstanceAddress)
    (member : JsString) : Except ServiceCodecError (StateCodecRegistry C) :=
  if (codecs (stateKey address member)).isSome then .error (.duplicateServiceState address member)
  else .ok (update codecs (stateKey address member) (some fresh))

def get (codecs : StateCodecRegistry C) (address : Option ServiceInstanceAddress)
    (member : JsString) : Except ServiceCodecError C :=
  (codecs (stateKey address member)).elim (.error (.unknownServiceState address member)) .ok

def removeInstance (codecs : StateCodecRegistry C) (address : ServiceInstanceAddress) :
    StateCodecRegistry C :=
  fun key => if key.1 = some (address.key, address.generation.normalized) then none else codecs key

end StateCodecRegistry

section

variable (codec : BatchCodec C A B)

/-- Put a batch through a codec, which stays registered. -/
def recodeBatch (codecs : StateCodecRegistry C) (key : StateKey) (state : C) (ops : List A) :
    Recoded C (List B) :=
  ((codec.step state ops).1.mapError .delta, update codecs key (some (codec.step state ops).2))

/-- Go through a list up to the first failure. -/
def recodeEach (recode : StateCodecRegistry C → X → Recoded C Y) (codecs : StateCodecRegistry C) :
    List X → Recoded C (List Y)
  | [] => (.ok [], codecs)
  | item :: items =>
    match recode codecs item with
    | (.error error, codecs) => (.error error, codecs)
    | (.ok wire, codecs) => (recodeEach recode codecs items).map (wire :: ·)

def recodeMember (address : Option ServiceInstanceAddress) (codecs : StateCodecRegistry C) :
    ServiceMemberSnapshot A → Recoded C (ServiceMemberSnapshot B)
  | .method name => (.ok (.method name), codecs)
  | .state name sequence ops =>
    match codecs.add codec.fresh address name with
    | .error error => (.error error, codecs)
    | .ok codecs =>
      (recodeBatch codec codecs (stateKey address name) codec.fresh ops).map (.state name sequence)

def recodeInstance (codecs : StateCodecRegistry C) (inst : ServiceInstanceSnapshot A) :
    Recoded C (ServiceInstanceSnapshot B) :=
  (recodeEach (recodeMember codec inst.address) codecs inst.members).map (⟨inst.address, ·⟩)

def recodeSnapshot (codecs : StateCodecRegistry C) (snapshot : ServiceSubscriptionSnapshot A) :
    Recoded C (ServiceSubscriptionSnapshot B) :=
  (recodeEach (recodeInstance codec) codecs.reset snapshot.instances).map
    (⟨snapshot.serviceId, snapshot.mode, ·⟩)

def recodeUpdate (codecs : StateCodecRegistry C) :
    ServiceProviderUpdate A → Recoded C (ServiceProviderUpdate B)
  | .state address member sequence ops =>
    match codecs.get address member with
    | .error error => (.error error, codecs)
    | .ok state =>
      (recodeBatch codec codecs (stateKey address member) state ops).map
        (.state address member sequence)
  | .unavailable => (.ok .unavailable, codecs.reset)
  | .replaced snapshot => (recodeInstance codec codecs.reset snapshot).map .replaced
  | .spawned inst => (recodeInstance codec codecs inst).map .spawned
  | .closed address => (.ok (.closed address), codecs.removeInstance address)

end

def encodeInstance := recodeInstance deltaEncoder

def decodeInstance := recodeInstance deltaDecoder

def encodeSnapshot := recodeSnapshot deltaEncoder

def decodeSnapshot := recodeSnapshot deltaDecoder

def encodeUpdate := recodeUpdate deltaEncoder

def decodeUpdate := recodeUpdate deltaDecoder

/-- What one end sends the other. -/
inductive ServiceMessage (Op : Type)
  | snapshot (snapshot : ServiceSubscriptionSnapshot Op)
  | update (update : ServiceProviderUpdate Op)

def recodeMessage (codec : BatchCodec C A B) (codecs : StateCodecRegistry C) :
    ServiceMessage A → Recoded C (ServiceMessage B)
  | .snapshot snapshot => (recodeSnapshot codec codecs snapshot).map .snapshot
  | .update upd => (recodeUpdate codec codecs upd).map .update

/-- What is made of messages, one after the other. -/
def recodeMessages (codec : BatchCodec C A B) (codecs : StateCodecRegistry C) :
    List (ServiceMessage A) → List (Except ServiceCodecError (ServiceMessage B))
  | [] => []
  | message :: later =>
    let recoded := recodeMessage codec codecs message
    recoded.1 :: recodeMessages codec recoded.2 later

/-! ## What a failed call leaves behind -/

def ServiceMemberSnapshot.states (address : Option ServiceInstanceAddress) :
    ServiceMemberSnapshot A → List StateKey
  | .method _ => []
  | .state name _ _ => [stateKey address name]

def ServiceInstanceSnapshot.states (inst : ServiceInstanceSnapshot A) : List StateKey :=
  inst.members.flatMap (·.states inst.address)

namespace ServiceMessage

/-- The states a message registers. -/
def registers : ServiceMessage A → List StateKey
  | .snapshot whole => whole.instances.flatMap (·.states)
  | .update (.replaced inst) | .update (.spawned inst) => inst.states
  | _ => []

/-- The states a message names. -/
def states : ServiceMessage A → List StateKey
  | .update (.state address member _ _) => [stateKey address member]
  | message => message.registers

/-- The codecs a message starts from. -/
def base (codecs : StateCodecRegistry C) : ServiceMessage A → StateCodecRegistry C
  | .snapshot _ | .update (.replaced _) | .update .unavailable => codecs.reset
  | _ => codecs

end ServiceMessage

variable {codec : BatchCodec C A B} {L : StateKey → Prop} {c c' : StateCodecRegistry C}
  {key : StateKey} {address : Option ServiceInstanceAddress}

/-- Two registries have the same codecs off some keys. -/
def Agree (L : StateKey → Prop) (c c' : StateCodecRegistry C) : Prop :=
  ∀ key, ¬ L key → c key = c' key

/-- Two calls return alike, and their registries agree. -/
def Alike (L : StateKey → Prop) (r r' : Recoded C Y) : Prop := r.1 = r'.1 ∧ Agree L r.2 r'.2

theorem Alike.map {r r' : Recoded C Y} (h : Alike L r r') (f : Y → Z) :
    Alike L (r.map f) (r'.map f) :=
  ⟨congrArg (Except.map f) h.1, h.2⟩

theorem Agree.update (h : Agree L c c') (key : StateKey) (state : Option C) :
    Agree L (update c key state) (update c' key state) := by
  intro other hother
  by_cases hkey : other = key
  · rw [hkey, update_self, update_self]
  · rw [update_of_ne hkey, update_of_ne hkey, h other hother]

theorem Agree.recodeBatch (h : Agree L c c') (state : C) (ops : List A) :
    Alike L (recodeBatch codec c key state ops) (recodeBatch codec c' key state ops) :=
  ⟨rfl, h.update _ _⟩

theorem Agree.recodeMember (h : Agree L c c') (member : ServiceMemberSnapshot A)
    (hoff : ∀ key ∈ member.states address, ¬ L key) :
    Alike L (recodeMember codec address c member) (recodeMember codec address c' member) := by
  cases member with
  | method name => exact ⟨rfl, h⟩
  | state name sequence ops =>
    rw [Service.recodeMember, Service.recodeMember, StateCodecRegistry.add, StateCodecRegistry.add,
      ← h _ (hoff _ mem_cons_self)]
    split_ifs
    · exact ⟨rfl, h⟩
    · exact ((h.update _ _).recodeBatch _ ops).map _

theorem Agree.recodeEach {recode} {items : List X} (h : Agree L c c')
    (hitems : ∀ item ∈ items, ∀ c c', Agree L c c' → Alike L (recode c item) (recode c' item)) :
    Alike (Y := List Y) L (recodeEach recode c items) (recodeEach recode c' items) := by
  induction items generalizing c c' with
  | nil => exact ⟨rfl, h⟩
  | cons item items ih =>
    obtain ⟨hwire, hcodecs⟩ := hitems item mem_cons_self c c' h
    have hrest := ih hcodecs fun other hmem => hitems other (mem_cons_of_mem _ hmem)
    rw [Service.recodeEach, Service.recodeEach]
    generalize recode c item = first at hwire hcodecs hrest
    generalize recode c' item = second at hwire hcodecs hrest
    obtain ⟨wire, codecs⟩ := first
    obtain ⟨wire', codecs'⟩ := second
    cases hwire
    cases wire with
    | error error => exact ⟨rfl, hcodecs⟩
    | ok wire => exact hrest.map _

theorem Agree.recodeInstance (h : Agree L c c') (inst : ServiceInstanceSnapshot A)
    (hoff : ∀ key ∈ inst.states, ¬ L key) :
    Alike L (recodeInstance codec c inst) (recodeInstance codec c' inst) :=
  (h.recodeEach fun member hmem _ _ h => h.recodeMember member fun key hkey =>
    hoff key (mem_flatMap.mpr ⟨member, hmem, hkey⟩)).map _

/-- What is made of a message does not depend on the codecs of states it does not name. -/
theorem Agree.recodeMessage (h : Agree L c c') (msg : ServiceMessage A)
    (hoff : ∀ key ∈ msg.states, ¬ L key) :
    Alike L (recodeMessage codec c msg) (recodeMessage codec c' msg) := by
  cases msg with
  | snapshot snapshot => exact ⟨rfl, fun _ _ => rfl⟩
  | update upd =>
    apply Alike.map
    cases upd with
    | state address member sequence ops =>
      rw [recodeUpdate, recodeUpdate, StateCodecRegistry.get, StateCodecRegistry.get,
        ← h _ (hoff _ mem_cons_self)]
      cases c (stateKey address member) with
      | none => exact ⟨rfl, h⟩
      | some state => exact (h.recodeBatch state ops).map _
    | unavailable | replaced inst => exact ⟨rfl, fun _ _ => rfl⟩
    | spawned inst => exact (h.recodeInstance inst hoff).map _
    | closed address =>
      refine ⟨rfl, fun key hkey => ?_⟩
      show ite _ _ _ = ite _ _ _
      rw [h key hkey]

theorem Agree.recodeMessages (h : Agree L c c') {later : List (ServiceMessage A)}
    (hoff : ∀ msg ∈ later, ∀ key ∈ msg.states, ¬ L key) :
    recodeMessages codec c later = recodeMessages codec c' later := by
  induction later generalizing c c' with
  | nil => rfl
  | cons msg later ih =>
    obtain ⟨hwire, hcodecs⟩ := h.recodeMessage msg (hoff msg mem_cons_self)
    rw [Service.recodeMessages, Service.recodeMessages, hwire,
      ih hcodecs fun other hmem => hoff other (mem_cons_of_mem _ hmem)]

/-- A list touches the codec of a state only where one of its items does. -/
theorem recodeEach_frame {recode : StateCodecRegistry C → X → Recoded C Y}
    {states : X → List StateKey} {items : List X}
    (hfrm : ∀ c, ∀ item ∈ items, (key ∈ states item → (c key).isSome = true) →
      (recode c item).2 key = c key)
    (hkey : key ∈ items.flatMap states → (c key).isSome = true) :
    (recodeEach recode c items).2 key = c key := by
  induction items generalizing c with
  | nil => rfl
  | cons item items ih =>
    rw [flatMap_cons, mem_append] at hkey
    have hfst := hfrm c item mem_cons_self fun hmem => hkey (.inl hmem)
    rw [recodeEach]
    generalize recode c item = first at hfst
    obtain ⟨wire, codecs⟩ := first
    cases wire with
    | error error => exact hfst
    | ok wire =>
      refine (ih (fun c other hmem => hfrm c other (mem_cons_of_mem _ hmem)) ?_).trans hfst
      intro hmem
      rw [show codecs key = c key from hfst]
      exact hkey (.inr hmem)

/-- An instance touches no codec registered before. -/
theorem recodeInstance_frame (inst : ServiceInstanceSnapshot A)
    (hkey : key ∈ inst.states → (c key).isSome = true) :
    (recodeInstance codec c inst).2 key = c key := by
  refine recodeEach_frame ?_ hkey
  intro c member _ hkey
  cases member with
  | method name => rfl
  | state name sequence ops =>
    rw [recodeMember, StateCodecRegistry.add]
    split_ifs with hsome
    · rfl
    · have hne : key ≠ stateKey inst.address name := by
        rintro rfl
        exact hsome (hkey mem_cons_self)
      show update (update c _ _) _ _ key = c key
      rw [update_of_ne hne, update_of_ne hne]

/-- A batch that is refused leaves its codec alone. -/
def BatchCodec.Transactional (codec : BatchCodec C A B) : Prop :=
  ∀ state ops error, (codec.step state ops).1 = .error error → (codec.step state ops).2 = state

theorem deltaEncoder_transactional : deltaEncoder.Transactional := by
  intro enc ops error h
  cases hvalid : validateAll ops with
  | error other => exact congrArg Prod.snd (DeltaEncoder.encode_of_error hvalid)
  | ok _ =>
    have hok : (enc.encode ops).1 = .error error := h
    rw [DeltaEncoder.encode, hvalid] at hok
    cases hok

theorem deltaDecoder_transactional : deltaDecoder.Transactional := by
  intro dec wire error h
  rcases DeltaDecoder.decode_cases dec wire with ⟨ops, -, heq⟩ | ⟨error, heq⟩
  · have hok : (dec.decode wire).1 = .error _ := h
    rw [heq] at hok
    cases hok
  · exact congrArg Prod.snd heq

/-- A failed call changes no codec but those of states it was to register. -/
theorem recodeMessage_frame (htrans : codec.Transactional) {msg : ServiceMessage A} {error}
    (h : (recodeMessage codec c msg).1 = .error error)
    (hkey : key ∈ msg.registers → (msg.base c key).isSome = true) :
    (recodeMessage codec c msg).2 key = msg.base c key := by
  cases msg with
  | snapshot snapshot => exact recodeEach_frame (fun _ inst _ => recodeInstance_frame inst) hkey
  | update upd =>
    cases upd with
    | state address member sequence ops =>
      show (recodeUpdate codec c (.state address member sequence ops)).2 key = c key
      rw [recodeMessage, recodeUpdate, StateCodecRegistry.get] at h
      rw [recodeUpdate, StateCodecRegistry.get]
      cases hstate : c (stateKey address member) with
      | none => rfl
      | some state =>
        rw [hstate] at h
        cases hstep : (codec.step state ops).1 with
        | ok wire =>
          have hok : Except.map _ (Except.map _ ((codec.step state ops).1.mapError _)) =
            .error _ := h
          rw [hstep] at hok
          cases hok
        | error error =>
          show update c _ (some (codec.step state ops).2) key = c key
          rw [htrans _ _ _ hstep, ← hstate, update_eq_self]
    | unavailable | closed address => cases h
    | replaced inst | spawned inst => exact recodeInstance_frame inst hkey

/-- After a failed call, messages are recoded as if it had only done its reset, unless they name
a state that the call was to register. -/
def BatchCodec.ContainsFailures (codec : BatchCodec C A B) : Prop :=
  ∀ (codecs : StateCodecRegistry C) (message : ServiceMessage A) (later : List (ServiceMessage A))
    (error : ServiceCodecError), (recodeMessage codec codecs message).1 = .error error →
    (∀ other ∈ later, ∀ key ∈ other.states, key ∈ message.registers →
      (message.base codecs key).isSome = true) →
    recodeMessages codec (recodeMessage codec codecs message).2 later =
      recodeMessages codec (message.base codecs) later

theorem BatchCodec.Transactional.containsFailures (h : codec.Transactional) :
    codec.ContainsFailures := by
  intro codecs msg later error hfail hlater
  refine Agree.recodeMessages
    (L := fun key => ¬ (key ∈ msg.registers → (msg.base codecs key).isSome = true))
    (fun key hkey => recodeMessage_frame h hfail (not_not.mp hkey)) ?_
  exact fun other hmem key hkey => not_not.mpr (hlater other hmem key hkey)

/-- Neither end lets a failed call touch what it does not name. -/
theorem failures_contained : deltaEncoder.ContainsFailures ∧ deltaDecoder.ContainsFailures :=
  ⟨deltaEncoder_transactional.containsFailures, deltaDecoder_transactional.containsFailures⟩

/-! ## Both ends in step -/

def ServiceMemberSnapshot.ops : ServiceMemberSnapshot A → List A
  | .method _ => []
  | .state _ _ ops => ops

def ServiceInstanceSnapshot.ops (inst : ServiceInstanceSnapshot A) : List A :=
  inst.members.flatMap (·.ops)

/-- The operations of a message. -/
def ServiceMessage.ops : ServiceMessage A → List A
  | .snapshot whole => whole.instances.flatMap (·.ops)
  | .update (.state _ _ _ ops) => ops
  | .update (.replaced inst) | .update (.spawned inst) => inst.ops
  | _ => []

/-- After `n` operations, these still find ids, and none spells an index as negative zero. -/
def Readable (n : Nat) (ops : List DeltaOp) : Prop :=
  n + ops.length < 2 ^ 53 ∧ ∀ op ∈ ops, ∀ path, op.path = some path → path.Canonical

/-- Both ends have codecs for the same states, in lockstep, after `n` operations at most. -/
def InStep (n : Nat) (e : StateCodecRegistry DeltaEncoder) (d : StateCodecRegistry DeltaDecoder) :
    Prop :=
  ∀ key, Option.Rel (fun enc dec => Lockstep StatePath.Canonical enc dec ∧ enc.ids.size ≤ n)
    (e key) (d key)

variable {n m : Nat} {e : StateCodecRegistry DeltaEncoder} {d : StateCodecRegistry DeltaDecoder}
  {enc : DeltaEncoder} {dec : DeltaDecoder} {ops : List DeltaOp}

theorem InStep.empty : InStep n (fun _ => none) fun _ => none := fun _ => .none

theorem InStep.mono (h : InStep n e d) (hn : n ≤ m) : InStep m e d := by
  intro key
  have hkey := h key
  generalize e key = near at hkey ⊢
  generalize d key = far at hkey ⊢
  cases hkey with
  | none => exact .none
  | some hboth => exact .some ⟨hboth.1, hboth.2.trans hn⟩

theorem InStep.update (h : InStep n e d) (key : StateKey)
    (hlock : Lockstep StatePath.Canonical enc dec) (hids : enc.ids.size ≤ n) :
    InStep n (update e key (some enc)) (update d key (some dec)) := by
  intro other
  by_cases hkey : other = key
  · rw [hkey, update_self, update_self]
    exact .some ⟨hlock, hids⟩
  · rw [update_of_ne hkey, update_of_ne hkey]
    exact h other

/-- What one end makes of an item the other end turns back, and both stay in step. -/
def Tracks (ops : X → List DeltaOp)
    (f : StateCodecRegistry DeltaEncoder → X → Recoded DeltaEncoder Y)
    (g : StateCodecRegistry DeltaDecoder → Y → Recoded DeltaDecoder X) : Prop :=
  ∀ n item e d wire, InStep n e d → Readable n (ops item) → (f e item).1 = .ok wire →
    (g d wire).1 = .ok item ∧ InStep (n + (ops item).length) (f e item).2 (g d wire).2

theorem Recoded.map_eq_ok {f : Y → Z} {r : Recoded C Y} {z : Z} (h : (r.map f).1 = .ok z) :
    ∃ y, r.1 = .ok y ∧ z = f y := by
  obtain ⟨result, codecs⟩ := r
  cases result with
  | error error => cases h
  | ok y => exact ⟨y, rfl, (Except.ok.inj h).symm⟩

theorem Recoded.map_of_ok {f : Y → Z} {r : Recoded C Y} {y : Y} (h : r.1 = .ok y) :
    (r.map f).1 = .ok (f y) :=
  congrArg (Except.map f) h

theorem InStep.recodeBatch (h : InStep n e d) {key : StateKey}
    (hlock : Lockstep StatePath.Canonical enc dec) (hids : enc.ids.size ≤ n)
    (hops : Readable n ops) {wire}
    (hwire : (recodeBatch deltaEncoder e key enc ops).1 = .ok wire) :
    (recodeBatch deltaDecoder d key dec wire).1 = .ok ops ∧
      InStep (n + ops.length) (recodeBatch deltaEncoder e key enc ops).2
        (recodeBatch deltaDecoder d key dec wire).2 := by
  have hencode : (enc.encode ops).1 = .ok wire := by
    have hmapped : (enc.encode ops).1.mapError _ = .ok wire := hwire
    generalize (enc.encode ops).1 = result at hmapped ⊢
    cases result with
    | error error => cases hmapped
    | ok sent => exact congrArg Except.ok (Except.ok.inj hmapped)
  have hvalid : validateAll ops = .ok () := by
    cases hvalid : validateAll ops with
    | ok _ => rfl
    | error error =>
      rw [DeltaEncoder.encode_of_error hvalid] at hencode
      cases hencode
  obtain ⟨wire', decoded, hwire', hdecoded, hsame, hnext⟩ :=
    hlock.encode hvalid hops.2 (DeltaEncoder.Batch.roomy_of_size _ (by
      have := hops.1
      show enc.ids.size + _ < _
      omega))
  cases hencode.symm.trans hwire'
  rw [forall₂_sameOp_eq hsame hops.2] at hdecoded
  constructor
  · show Except.mapError _ (dec.decode wire).1 = _
    rw [hdecoded]
    rfl
  · refine (h.mono (Nat.le_add_right _ _)).update key hnext ?_
    refine (DeltaEncoder.size_encode enc hvalid).trans ?_
    omega

theorem Tracks.each {ops : X → List DeltaOp} {f} {g : _ → Y → _} (h : Tracks ops f g) :
    Tracks (List.flatMap ops) (recodeEach f) (recodeEach g) := by
  intro n items
  induction items generalizing n with
  | nil =>
    intro e d wire hstep _ hwire
    cases hwire
    exact ⟨rfl, hstep⟩
  | cons item items ih =>
    intro e d wire hstep hops hwire
    have hlen : (List.flatMap ops (item :: items)).length =
        (ops item).length + (List.flatMap ops items).length := by
      rw [flatMap_cons, length_append]
    have hread : ∀ op ∈ List.flatMap ops (item :: items), _ := hops.2
    have hsize := hops.1
    rw [hlen] at hsize
    rw [flatMap_cons, forall_mem_append] at hread
    rw [recodeEach] at hwire ⊢
    generalize hfst : f e item = first at hwire ⊢
    obtain ⟨result, e'⟩ := first
    cases result with
    | error error => cases hwire
    | ok y =>
      obtain ⟨ys, hys, rfl⟩ := Recoded.map_eq_ok hwire
      obtain ⟨hitem, hnext⟩ := h n item e d y hstep ⟨by omega, hread.1⟩ (congrArg Prod.fst hfst)
      rw [congrArg Prod.snd hfst] at hnext
      rw [recodeEach]
      generalize hsecond : g d y = second at hitem hnext ⊢
      obtain ⟨result, d'⟩ := second
      cases hitem
      obtain ⟨hitems, hlast⟩ := ih _ e' d' ys hnext ⟨by omega, hread.2⟩ hys
      refine ⟨Recoded.map_of_ok hitems, ?_⟩
      rw [hlen, ← Nat.add_assoc]
      exact hlast

theorem tracks_member (address : Option ServiceInstanceAddress) :
    Tracks ServiceMemberSnapshot.ops (recodeMember deltaEncoder address)
      (recodeMember deltaDecoder address) := by
  intro n member e d wire hstep hops hwire
  cases member with
  | method name =>
    cases hwire
    exact ⟨rfl, hstep⟩
  | state name sequence ops =>
    have hkey := hstep (stateKey address name)
    rw [recodeMember, StateCodecRegistry.add] at hwire ⊢
    cases hnone : e (stateKey address name) with
    | some enc =>
      rw [hnone] at hwire
      cases hwire
    | none =>
      rw [hnone] at hwire hkey
      have hfar : d (stateKey address name) = none := by
        cases hd : d (stateKey address name) with
        | none => rfl
        | some dec =>
          rw [hd] at hkey
          cases hkey
      obtain ⟨y, hy, rfl⟩ := Recoded.map_eq_ok hwire
      obtain ⟨hread, hnext⟩ := (hstep.update _ lockstep_new (Nat.zero_le _)).recodeBatch
        lockstep_new (Nat.zero_le _) hops hy
      rw [recodeMember, StateCodecRegistry.add, hfar]
      exact ⟨Recoded.map_of_ok hread, hnext⟩

theorem tracks_instance : Tracks ServiceInstanceSnapshot.ops (recodeInstance deltaEncoder)
    (recodeInstance deltaDecoder) := by
  intro n inst e d wire hstep hops hwire
  obtain ⟨members, hmembers, rfl⟩ := Recoded.map_eq_ok hwire
  obtain ⟨hread, hnext⟩ := (tracks_member inst.address).each n _ e d members hstep hops hmembers
  exact ⟨Recoded.map_of_ok hread, hnext⟩

theorem tracks_message :
    Tracks ServiceMessage.ops (recodeMessage deltaEncoder) (recodeMessage deltaDecoder) := by
  intro n msg e d wire hstep hops hwire
  cases msg with
  | snapshot snapshot =>
    obtain ⟨sent, hsent, rfl⟩ := Recoded.map_eq_ok hwire
    obtain ⟨instances, hinstances, rfl⟩ := Recoded.map_eq_ok hsent
    obtain ⟨hread, hnext⟩ := tracks_instance.each n _ _ _ instances InStep.empty hops hinstances
    exact ⟨Recoded.map_of_ok (Recoded.map_of_ok hread), hnext⟩
  | update upd =>
    obtain ⟨sent, hsent, rfl⟩ := Recoded.map_eq_ok hwire
    suffices h : (recodeUpdate deltaDecoder d sent).1 = .ok upd ∧
        InStep (n + (ServiceMessage.update upd).ops.length) (recodeUpdate deltaEncoder e upd).2
          (recodeUpdate deltaDecoder d sent).2 from ⟨Recoded.map_of_ok h.1, h.2⟩
    cases upd with
    | state address member sequence ops =>
      have hkey := hstep (stateKey address member)
      rw [recodeUpdate, StateCodecRegistry.get] at hsent ⊢
      cases henc : e (stateKey address member) with
      | none =>
        rw [henc] at hsent
        cases hsent
      | some enc =>
        rw [henc] at hsent hkey
        obtain ⟨y, hy, rfl⟩ := Recoded.map_eq_ok hsent
        rw [recodeUpdate, StateCodecRegistry.get]
        generalize d (stateKey address member) = far at hkey ⊢
        cases hkey with
        | some hboth =>
          obtain ⟨hread, hnext⟩ := hstep.recodeBatch hboth.1 hboth.2 hops hy
          exact ⟨Recoded.map_of_ok hread, hnext⟩
    | unavailable =>
      cases hsent
      exact ⟨rfl, InStep.empty⟩
    | replaced inst =>
      obtain ⟨sent, hinst, rfl⟩ := Recoded.map_eq_ok hsent
      obtain ⟨hread, hnext⟩ := tracks_instance n inst _ _ sent InStep.empty hops hinst
      exact ⟨Recoded.map_of_ok hread, hnext⟩
    | spawned inst =>
      obtain ⟨sent, hinst, rfl⟩ := Recoded.map_eq_ok hsent
      obtain ⟨hread, hnext⟩ := tracks_instance n inst e d sent hstep hops hinst
      exact ⟨Recoded.map_of_ok hread, hnext⟩
    | closed address =>
      cases hsent
      refine ⟨rfl, fun key => ?_⟩
      show Option.Rel _ (ite _ _ _) (ite _ _ _)
      split_ifs
      · exact .none
      · exact hstep key

/-- Send messages from one end to the other, up to the first that is refused. -/
def relayMessages (e : StateCodecRegistry DeltaEncoder) (d : StateCodecRegistry DeltaDecoder) :
    List (ServiceMessage DeltaOp) → List (Except ServiceCodecError (ServiceMessage DeltaOp))
  | [] => []
  | message :: later =>
    match recodeMessage deltaEncoder e message with
    | (.error _, _) => []
    | (.ok wire, e) =>
      let received := recodeMessage deltaDecoder d wire
      received.1 :: relayMessages e received.2 later

theorem InStep.relayMessages (h : InStep n e d) {messages : List (ServiceMessage DeltaOp)}
    (hread : Readable n (messages.flatMap (·.ops))) :
    relayMessages e d messages = (messages.take
      ((recodeMessages deltaEncoder e messages).takeWhile Except.isOk).length).map .ok := by
  induction messages generalizing n e d with
  | nil => rfl
  | cons msg later ih =>
    obtain ⟨hsize, hcanonical⟩ := hread
    rw [flatMap_cons, length_append] at hsize
    rw [flatMap_cons, forall_mem_append] at hcanonical
    have htracks := tracks_message n msg e d
    rw [Service.relayMessages, recodeMessages]
    generalize recodeMessage deltaEncoder e msg = sent at htracks ⊢
    obtain ⟨result, e'⟩ := sent
    cases result with
    | error error => rfl
    | ok wire =>
      obtain ⟨hread, hnext⟩ := htracks wire h ⟨by omega, hcanonical.1⟩ rfl
      dsimp only
      rw [hread, ih hnext ⟨by omega, hcanonical.2⟩]
      rfl

/-- From fresh codecs on, every message up to the first that is refused arrives as it was sent. -/
theorem relay_messages {messages : List (ServiceMessage DeltaOp)}
    (h : Readable 0 (messages.flatMap (·.ops))) :
    relayMessages (fun _ => none) (fun _ => none) messages = (messages.take
      ((recodeMessages deltaEncoder (fun _ => none) messages).takeWhile Except.isOk).length).map
        .ok :=
  InStep.empty.relayMessages h

/-- A state is hydrated and replaced. -/
theorem relay_messages_hydration :
    let messages : List (ServiceMessage DeltaOp) :=
      [.snapshot ⟨⟨[]⟩, .singleton, [⟨none, [.state ⟨[]⟩ JsInteger.zero [.replace .null]]⟩]⟩,
        .update (.state none ⟨[]⟩ JsInteger.one [.replace (.bool true)])]
    relayMessages (fun _ => none) (fun _ => none) messages = (messages.take
      ((recodeMessages deltaEncoder (fun _ => none) messages).takeWhile Except.isOk).length).map
        .ok := by
  apply relay_messages
  refine ⟨by decide, fun op hop path hpath => ?_⟩
  rcases mem_cons.mp hop with rfl | hop
  · cases hpath
  · cases mem_singleton.mp hop
    cases hpath

end PiOxidized.Service
