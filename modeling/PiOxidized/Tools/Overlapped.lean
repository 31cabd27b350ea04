/-
# Overlapping mutations of one file

Calls on one file exclude each other when they have one key.  A file that is there has the key of
its place, whichever way it is spelled.  A file that is still to be created has the key of its
spelling, so two spellings of it through a link differ, and one spelling through a link differs from
itself as soon as the file is created.

What is created later never moves a file: where a file is found afterwards is where it would have
been created before.
-/

import PiOxidized.Tools.Exclusive
import PiOxidized.Tools.FileKeys

namespace PiOxidized.Tools

open Function Math Option

namespace FileSystem

variable {files files' : FileSystem} {path loc : Path}

/-- What is found in the first file system is found at the same place in the second one: there
nothing has become a link or has left its place, and a file may be a directory. -/
structure Found (files files' : FileSystem) : Prop where
  node : ∀ path, files'.node path = files.node path ∨ files.node path = none ∨
    (files.node path = some .file ∧ files'.node path = some .directory)
  maxLinks : files'.maxLinks = files.maxLinks

variable {rest : List Component}

theorem Found.walk (h : Found files files')
    {follow follow' : Path → List Component → Except ErrorKind Path}
    (hfollow : ∀ here rest loc, follow here rest = .ok loc →
      follow' here rest = .ok loc) {here : Path}
    (hwalk : files.walk follow here rest = .ok loc) :
    files'.walk follow' here rest = .ok loc := by
  induction rest generalizing here with
  | nil => exact hwalk
  | cons component rest ih =>
    cases component with
    | curDir | parentDir => exact ih hwalk
    | normal name =>
      rw [FileSystem.walk] at hwalk ⊢
      rcases h.node (here ++ [name]) with hsame | hnone | ⟨hfile, hdirectory⟩
      · rw [hsame]
        cases hnode : files.node (here ++ [name]) with
        | none =>
          rw [hnode] at hwalk
          cases hwalk
        | some node =>
          rw [hnode] at hwalk
          cases node with
          | directory => exact ih hwalk
          | file => exact hwalk
          | link target => exact hfollow _ _ _ hwalk
      · rw [hnone] at hwalk
        cases hwalk
      · rw [hfile] at hwalk
        rw [hdirectory]
        dsimp only at hwalk ⊢
        split_ifs at hwalk with hend
        rw [hend]
        exact hwalk

theorem Found.walkWithin (h : Found files files') (links : Nat) {here : Path}
    (hwalk : files.walkWithin links here rest = .ok loc) :
    files'.walkWithin links here rest = .ok loc := by
  induction links generalizing here rest loc with
  | zero => exact h.walk (fun _ _ _ hfollow => hfollow) hwalk
  | succ links ih => exact h.walk (fun _ _ _ => ih) hwalk

theorem Found.canonicalize (h : Found files files') (hfnd : files.canonicalize path = .ok loc) :
    files'.canonicalize path = .ok loc := by
  rw [FileSystem.canonicalize, h.maxLinks]
  exact h.walkWithin _ hfnd

theorem found_completed (files : FileSystem) : Found files files.completed where
  node := by
    intro path
    show some ((files.node path).getD .directory) = files.node path ∨ _
    cases files.node path with
    | none => exact .inr (.inl rfl)
    | some node => exact .inl rfl
  maxLinks := rfl

theorem locate_eq_some_iff :
    files.locate path = some loc ↔ files.completed.canonicalize path = .ok loc := by
  rw [locate]
  cases files.completed.canonicalize path with
  | error kind => exact ⟨nofun, nofun⟩
  | ok place => exact ⟨fun h => congrArg _ (some.inj h), fun h => congrArg _ (Except.ok.inj h)⟩

/-- The place at which a file is found is the place of the file. -/
theorem locate_of_canonicalize (h : files.canonicalize path = .ok loc) :
    files.locate path = some loc :=
  locate_eq_some_iff.mpr ((found_completed files).canonicalize h)

/-- A file that is created, or a directory, was taken for a directory before. -/
theorem found_completed_create {node : Node} (hlink : node.isLink = false)
    (hfree : files.node loc = none) :
    Found (files.create loc node).completed files.completed where
  node := by
    intro path
    show some ((files.node path).getD .directory) =
      some ((update files.node loc (some node) path).getD .directory) ∨ _
    by_cases hpath : path = loc
    · rw [hpath, update_self, hfree]
      cases node with
      | directory => exact .inl rfl
      | file =>
        refine .inr (.inr ⟨?_, ?_⟩)
        · show some ((update files.node loc (some .file) loc).getD .directory) = some .file
          rw [update_self]
          rfl
        · show some ((files.node loc).getD .directory) = some .directory
          rw [hfree]
          rfl
      | link target => cases hlink
    · rw [update_of_ne hpath]
      exact .inl rfl
  maxLinks := rfl

/-- A file is found where it would have been created before. -/
theorem locate_of_create {node : Node} (hlink : node.isLink = false)
    (hfree : files.node loc = none) {place : Path}
    (h : (files.create loc node).locate path = some place) :
    files.locate path = some place :=
  locate_eq_some_iff.mpr
    ((found_completed_create hlink hfree).canonicalize (locate_eq_some_iff.mp h))

theorem found_iff : files.found path = true ↔ ∃ place, files.canonicalize path = .ok place := by
  rw [found]
  cases files.canonicalize path with
  | error kind => exact ⟨nofun, nofun⟩
  | ok place => exact ⟨fun _ => ⟨place, rfl⟩, fun _ => rfl⟩

end FileSystem

section Key

variable {files : FileSystem} {cwd key loc : Path} {filePath : Spelling}

/-- The key of a file that is there is its place. -/
theorem key_of_found (h : mutationQueueKey files cwd filePath = .ok key)
    (hfnd : files.found (resolveLexicallyAbsolute cwd filePath) = true)
    (hloc : files.locate (resolveLexicallyAbsolute cwd filePath) = some loc) :
    key = loc := by
  obtain ⟨place, hplc⟩ := FileSystem.found_iff.mp hfnd
  rw [FileSystem.locate_of_canonicalize hplc] at hloc
  rw [mutationQueueKey, hplc] at h
  exact (Except.ok.inj h).symm.trans (some.inj hloc)

/-- The key of a file that is missing is its normalized path. -/
theorem key_of_missing (h : mutationQueueKey files cwd filePath = .ok key)
    (hmiss : files.found (resolveLexicallyAbsolute cwd filePath) = false) :
    key = resolveLexicallyAbsolute cwd filePath := by
  rw [mutationQueueKey] at h
  split at h
  · rename_i place hplc
    rw [FileSystem.found, hplc] at hmiss
    cases hmiss
  · exact (Except.ok.inj h).symm
  · exact (Except.ok.inj h).symm
  · cases h

end Key

/-! ## Pending calls -/

/-- The closure has not ended yet. -/
def Stage.pending : Stage → Bool
  | .registered | .waiting | .granted | .running => true
  | .finished | .released | .leaving | .deregistered => false

/-- The key of a call whose closure has not ended yet. -/
def Call.pendingKey {K : Type} : Call K → Option K
  | .keyed key => some key
  | .held stage key _ => if stage.pending then some key else none
  | .resolving | .done => none

namespace Queue

variable {K : Type} [DecidableEq K] {queue queue' : Queue K} {event : QueueEvent K} {i j : Nat}
  {key : K} {gate : Nat} {stage : Stage} {call : Call K}

def pendingKey (queue : Queue K) (i : Nat) : Option K := (queue.calls[i]?).bind Call.pendingKey

omit [DecidableEq K] in
theorem pendingKey_of_call (h : queue.calls[i]? = some call) :
    queue.pendingKey i = call.pendingKey := by
  rw [pendingKey, h]
  rfl

omit [DecidableEq K] in
theorem pendingKey_set {old : Call K} (hcall : queue.calls[i]? = some old)
    (hcalls : queue'.calls = queue.calls.set i call) :
    queue'.pendingKey j = if j = i then call.pendingKey else queue.pendingKey j := by
  rw [pendingKey, hcalls]
  split_ifs with hj
  · rw [hj, getElem?_set_of_some hcall]
    rfl
  · rw [List.getElem?_set_ne (Ne.symm hj)]
    rfl

theorem calls_deregister : (queue.deregister key gate).calls = queue.calls := by
  rw [deregister]
  split_ifs <;> rfl

/-- What a registered call does keeps its key or ends its closure. -/
theorem Advance.pendingKey (h : queue.Advance i key gate stage queue')
    (hcall : queue.calls[i]? = some (.held stage key gate)) {k : K}
    (hj : queue'.pendingKey j = some k) : queue.pendingKey j = some k := by
  have hset : ∃ next : Call K, queue'.calls = queue.calls.set i next ∧
      ∀ k, next.pendingKey = some k → (Call.held stage key gate).pendingKey = some k := by
    cases h with
    | clone | acquire | resume => exact ⟨_, rfl, fun _ hk => hk⟩
    | abandon | lose | finish | release | dropPermit | dropGate => exact ⟨_, rfl, nofun⟩
    | deregister =>
      refine ⟨.held .deregistered key gate, ?_, nofun⟩
      rw [setCall, calls_deregister]
  obtain ⟨next, hcalls, hnext⟩ := hset
  rw [pendingKey_set hcall hcalls] at hj
  split_ifs at hj with heq
  · rw [heq, pendingKey_of_call hcall]
    exact hnext k hj
  · exact hj

theorem pendingKey_register (hcall : queue.calls[i]? = some (.keyed key)) :
    (queue.register i key).pendingKey j = queue.pendingKey j := by
  have hset : ∃ gate, (queue.register i key).calls =
      queue.calls.set i (.held .registered key gate) := by
    rw [register]
    cases queue.liveGate key with
    | some gate => exact ⟨gate, rfl⟩
    | none => exact ⟨queue.nextGate, rfl⟩
  obtain ⟨gate, hcalls⟩ := hset
  rw [pendingKey_set hcall hcalls]
  split_ifs with hj
  · rw [hj, pendingKey_of_call hcall]
    rfl
  · rfl

/-- Every other step than a resolution leaves a pending call its key, and gives nobody a key. -/
theorem pendingKey_step (hstep : queue.step event = some queue')
    (hevent : ∀ i key, event ≠ .resolve i key) (hj : queue'.pendingKey j = some key) :
    queue.pendingKey j = some key := by
  rcases step_cases hstep with rfl | ⟨i, next, hcall, rfl, hnext⟩ | ⟨i, k, hcall, rfl⟩ |
    ⟨i, stage, k, gate, hcall, hadv, -⟩
  · obtain ⟨call, hcall, hkey⟩ := bind_eq_some_iff.mp hj
    rcases getElem?_append_cases hcall with hcall | ⟨-, rfl⟩
    · rw [pendingKey_of_call hcall]
      exact hkey
    · cases hkey
  · rcases hnext with rfl | ⟨k, rfl, rfl⟩
    · rw [pendingKey_set hcall rfl] at hj
      split_ifs at hj with heq
      · cases hj
      · exact hj
    · exact absurd rfl (hevent i k)
  · rwa [pendingKey_register hcall] at hj
  · exact hadv.pendingKey hcall hj

omit [DecidableEq K] in
/-- A call that has not begun has no key. -/
theorem lt_of_pendingKey (h : queue.pendingKey j = some key) : j < queue.calls.length := by
  obtain ⟨call, hcall, -⟩ := bind_eq_some_iff.mp h
  exact (List.getElem?_eq_some_iff.mp hcall).1

end Queue

namespace Mutations

variable {s s' : Mutations} {event : MutationEvent} {i j : Nat} {key : Path}

/-- When a call resolves its path while the closure of another one on the same file has not ended,
the files of both were there when they were looked up, or are spelled without links; or neither was
there and both paths are the same once they are normalized. -/
def Agrees (s : Mutations) (event : MutationEvent) : Prop :=
  ∀ i j location, event = .resolve i → (s.queue.pendingKey j).isSome →
    s.locate i = some location → s.locate j = some location →
    ((s.files.found (s.path i) = true ∨ s.path i = location) ∧
      ((s.targets j).existed = true ∨ s.path j = location)) ∨
    (s.files.found (s.path i) = false ∧ (s.targets j).existed = false ∧ s.path i = s.path j)

/-- Pending calls on one file have one key. -/
structure Shared (s : Mutations) : Prop where
  owned : s.queue.Owned
  /-- A file that was there has the key of its place. -/
  existed : ∀ i key location, s.queue.pendingKey i = some key → (s.targets i).existed = true →
    s.locate i = some location → key = location
  /-- A file that was missing has the key of its spelling. -/
  missing : ∀ i key, s.queue.pendingKey i = some key → (s.targets i).existed = false →
    key = s.path i
  shared : ∀ i j key key' location, s.queue.pendingKey i = some key →
    s.queue.pendingKey j = some key' → s.locate i = some location → s.locate j = some location →
    key = key'

/-- What a step can do. -/
theorem step_cases (h : s.step event = some s') :
    (∃ filePath queue, s.queue.step .call = some queue ∧
      s' = { s.setTarget s.queue.calls.length ⟨filePath, false⟩ with queue := queue }) ∨
    (∃ i key queue, event = .resolve i ∧
      mutationQueueKey s.files s.cwd (s.targets i).filePath = .ok key ∧
      s.queue.step (.resolve i key) = some queue ∧
      s' = { s.setTarget i ⟨(s.targets i).filePath, s.files.found (s.path i)⟩ with
        queue := queue }) ∨
    (∃ (e : QueueEvent Path) (queue : Queue Path), (∀ i key, e ≠ .resolve i key) ∧
      s.queue.step e = some queue ∧ s' = { s with queue := queue }) ∨
    ∃ loc node, node.isLink = false ∧ s.files.node loc = none ∧
      s' = { s with files := s.files.create loc node } := by
  have hadv : ∀ e : QueueEvent Path, (∀ i key, e ≠ .resolve i key) →
      (s.queue.step e).map (fun queue => { s with queue := queue }) = some s' →
      ∃ (e : QueueEvent Path) (queue : Queue Path), (∀ i key, e ≠ .resolve i key) ∧
        s.queue.step e = some queue ∧ s' = { s with queue := queue } := by
    intro e he hmap
    obtain ⟨queue, hque, rfl⟩ := map_eq_some_iff.mp hmap
    exact ⟨e, queue, he, hque, rfl⟩
  cases event with
  | call filePath =>
    rw [step] at h
    obtain ⟨queue, hque, rfl⟩ := map_eq_some_iff.mp h
    exact .inl ⟨filePath, queue, hque, rfl⟩
  | resolve i =>
    rw [step] at h
    split at h
    · rename_i key hkey
      obtain ⟨queue, hque, rfl⟩ := map_eq_some_iff.mp h
      exact .inr (.inl ⟨i, key, queue, rfl, hkey, hque, rfl⟩)
    · exact .inr (.inr (.inl (hadv (.fail i) nofun h)))
  | advance e =>
    cases e with
    | call | resolve => cases h
    | _ => exact .inr (.inr (.inl (hadv _ (by intro _ _ he; cases he) h)))
  | create i loc node =>
    rw [step] at h
    split at h
    · split_ifs at h with hcreate
      obtain ⟨hfree, hlink⟩ := Bool.and_eq_true_iff.mp hcreate
      refine .inr (.inr (.inr ⟨loc, node, ?_, ?_, (some.inj h).symm⟩))
      · exact Bool.not_eq_eq_eq_not.mp hlink
      · rw [FileSystem.canCreate, Bool.and_assoc, Bool.and_eq_true_iff] at hfree
        exact of_decide_eq_true hfree.1
    · cases h

/-- A step that gives nobody a key and moves no file keeps the keys shared. -/
theorem Shared.narrow (h : s.Shared) (howned : s'.queue.Owned) (hcwd : s'.cwd = s.cwd)
    (hpend : ∀ j key, s'.queue.pendingKey j = some key →
      s.queue.pendingKey j = some key ∧ s'.targets j = s.targets j)
    (hlocate : ∀ path loc, s'.files.locate path = some loc →
      s.files.locate path = some loc) : s'.Shared := by
  have hpath : ∀ j key, s'.queue.pendingKey j = some key → s'.path j = s.path j := by
    intro j key hj
    rw [path, path, hcwd, (hpend j key hj).2]
  have hplc : ∀ j key loc, s'.queue.pendingKey j = some key →
      s'.locate j = some loc → s.locate j = some loc := by
    intro j key loc hj hloc
    rw [locate, hpath j key hj] at hloc
    exact hlocate _ _ hloc
  exact {
    owned := howned
    existed := by
      intro i key loc hi hexd hloc
      obtain ⟨hpre, htgt⟩ := hpend i key hi
      rw [htgt] at hexd
      exact h.existed i key loc hpre hexd (hplc i key loc hi hloc)
    missing := by
      intro i key hi hmiss
      obtain ⟨hpre, htgt⟩ := hpend i key hi
      rw [htgt] at hmiss
      rw [hpath i key hi]
      exact h.missing i key hpre hmiss
    shared := by
      intro i j key key' loc hi hj hlocationi hlocj
      exact h.shared i j key key' loc (hpend i key hi).1 (hpend j key' hj).1
        (hplc i key loc hi hlocationi) (hplc j key' loc hj hlocj) }

/-- A call whose file was there, or is spelled without links, has the key of its place. -/
theorem Shared.key_eq_location {loc : Path} (h : s.Shared)
    (hkey : s.queue.pendingKey i = some key) (hloc : s.locate i = some loc)
    (hnamed : (s.targets i).existed = true ∨ s.path i = loc) : key = loc := by
  cases hexd : (s.targets i).existed with
  | true => exact h.existed i key loc hkey hexd hloc
  | false =>
    rw [hexd] at hnamed
    rw [h.missing i key hkey hexd]
    exact hnamed.resolve_left Bool.false_ne_true

/-- The key that a call computes is shared with the pending calls on its file. -/
theorem Shared.agree {key' loc : Path} (h : s.Shared) (hcond : s.Agrees (.resolve i))
    (hkey : mutationQueueKey s.files s.cwd (s.targets i).filePath = .ok key)
    (hj : s.queue.pendingKey j = some key') (hlocationi : s.locate i = some loc)
    (hlocj : s.locate j = some loc) : key = key' := by
  have hsome : (s.queue.pendingKey j).isSome := by
    rw [hj]
    rfl
  rcases hcond i j loc rfl hsome hlocationi hlocj with
    ⟨hnamedi, hnamedj⟩ | ⟨hmissingi, hmissingj, hpath⟩
  · rw [h.key_eq_location hj hlocj hnamedj]
    cases hfnd : s.files.found (s.path i) with
    | true => exact key_of_found hkey hfnd hlocationi
    | false =>
      rw [hfnd] at hnamedi
      rw [key_of_missing hkey hfnd]
      exact hnamedi.resolve_left Bool.false_ne_true
  · rw [key_of_missing hkey hmissingi, h.missing j key' hj hmissingj]
    exact hpath

/-- A resolution that meets the condition keeps the keys shared. -/
theorem Shared.resolve {queue : Queue Path} (h : s.Shared) (hcond : s.Agrees (.resolve i))
    (hkey : mutationQueueKey s.files s.cwd (s.targets i).filePath = .ok key)
    (hque : s.queue.step (.resolve i key) = some queue) :
    ({ s.setTarget i ⟨(s.targets i).filePath, s.files.found (s.path i)⟩ with
      queue := queue } : Mutations).Shared := by
  have hpend : ∀ j, queue.pendingKey j = if j = i then some key else s.queue.pendingKey j := by
    intro j
    rw [Queue.step] at hque
    split_ifs at hque with hcall
    rw [← some.inj hque]
    have hset : (s.queue.setCall i (.keyed key)).pendingKey j =
        if j = i then (Call.keyed key).pendingKey else s.queue.pendingKey j :=
      Queue.pendingKey_set hcall rfl
    exact hset
  have htgt : ∀ j, j ≠ i →
      update s.targets i ⟨(s.targets i).filePath, s.files.found (s.path i)⟩ j =
        s.targets j := fun j hj => update_of_ne hj ..
  have hpath : ∀ j, ({ s.setTarget i ⟨(s.targets i).filePath, s.files.found (s.path i)⟩ with
      queue := queue } : Mutations).path j = s.path j := by
    intro j
    apply congrArg (resolveLexicallyAbsolute s.cwd)
    show (update s.targets i _ j).filePath = _
    by_cases hj : j = i
    · rw [hj, update_self]
    · rw [update_of_ne hj]
  have hlocate : ∀ j, ({ s.setTarget i ⟨(s.targets i).filePath, s.files.found (s.path i)⟩ with
      queue := queue } : Mutations).locate j = s.locate j := by
    intro j
    rw [locate, hpath]
    rfl
  exact {
    owned := h.owned.step hque
    existed := by
      intro j k loc hj hexd hloc
      rw [hlocate] at hloc
      replace hj := (hpend j).symm.trans hj
      split_ifs at hj with heq
      · rw [heq] at hexd hloc
        have hfnd : (update s.targets i _ i).existed = true := hexd
        rw [update_self] at hfnd
        rw [← some.inj hj]
        exact key_of_found hkey hfnd hloc
      · have hpre : (update s.targets i _ j).existed = true := hexd
        rw [htgt j heq] at hpre
        exact h.existed j k loc hj hpre hloc
    missing := by
      intro j k hj hmiss
      rw [hpath]
      replace hj := (hpend j).symm.trans hj
      split_ifs at hj with heq
      · rw [heq] at hmiss ⊢
        have hfnd : (update s.targets i _ i).existed = false := hmiss
        rw [update_self] at hfnd
        rw [← some.inj hj]
        exact key_of_missing hkey hfnd
      · have hpre : (update s.targets i _ j).existed = false := hmiss
        rw [htgt j heq] at hpre
        exact h.missing j k hj hpre
    shared := by
      intro j j' k k' loc hj hj' hlocj hlocj'
      rw [hlocate] at hlocj hlocj'
      replace hj := (hpend j).symm.trans hj
      replace hj' := (hpend j').symm.trans hj'
      split_ifs at hj with heq
      · rw [heq] at hlocj
        rw [← some.inj hj]
        split_ifs at hj' with heq'
        · exact some.inj hj'
        · exact h.agree hcond hkey hj' hlocj hlocj'
      · split_ifs at hj' with heq'
        · rw [heq'] at hlocj'
          rw [← some.inj hj']
          exact (h.agree hcond hkey hj hlocj' hlocj).symm
        · exact h.shared j j' k k' loc hj hj' hlocj hlocj' }

/-- Every step that meets the condition keeps the keys shared. -/
theorem Shared.step (h : s.Shared) (hcond : s.Agrees event) (hstep : s.step event = some s') :
    s'.Shared := by
  rcases step_cases hstep with ⟨filePath, queue, hque, rfl⟩ |
    ⟨i, key, queue, rfl, hkey, hque, rfl⟩ | ⟨e, queue, he, hque, rfl⟩ |
    ⟨loc, node, hlink, hfree, rfl⟩
  · refine h.narrow (h.owned.step hque) rfl ?_ fun _ _ hloc => hloc
    intro j key hj
    have hpre := Queue.pendingKey_step hque nofun hj
    refine ⟨hpre, ?_⟩
    exact update_of_ne (Nat.ne_of_lt (Queue.lt_of_pendingKey hpre)) ..
  · exact h.resolve hcond hkey hque
  · refine h.narrow (h.owned.step hque) rfl ?_ fun _ _ hloc => hloc
    intro j key hj
    exact ⟨Queue.pendingKey_step hque he hj, rfl⟩
  · refine h.narrow h.owned rfl (fun _ _ hj => ⟨hj, rfl⟩) ?_
    intro path place hplc
    exact FileSystem.locate_of_create hlink hfree hplc

theorem shared_of_start (h : s.queue = Queue.empty) : s.Shared := by
  have hnone : ∀ i key, s.queue.pendingKey i ≠ some key := by
    intro i key hi
    rw [h] at hi
    cases hi
  exact {
    owned := by
      rw [h]
      exact Queue.owned_empty
    existed := fun i key _ hi => absurd hi (hnone i key)
    missing := fun i key hi => absurd hi (hnone i key)
    shared := fun i _ key _ _ hi => absurd hi (hnone i key) }

/-- A call whose closure runs. -/
def Running (s : Mutations) (i : Nat) : Prop :=
  ∃ key gate, s.queue.calls[i]? = some (.held .running key gate)

/-- Where the paths of the calls on one file agree whenever one of them is resolved, two closures on
one file never run at the same time. -/
theorem mutations_of_one_file_exclude (h : machine.Run Agrees s) {i j : Nat} (hi : s.Running i)
    (hj : s.Running j) {loc : Path} (hlocationi : s.locate i = some loc)
    (hlocationj : s.locate j = some loc) : i = j := by
  have hshared : s.Shared := by
    refine h.invariant (fun s hs => shared_of_start hs) ?_
    intro s s' event hs hcond hstep
    exact hs.step hcond hstep
  obtain ⟨key, gate, hcalli⟩ := hi
  obtain ⟨key', gate', hcallj⟩ := hj
  have hkey : key = key' := hshared.shared i j key key' loc (Queue.pendingKey_of_call hcalli)
      (Queue.pendingKey_of_call hcallj) hlocationi hlocationj
  rw [← hkey] at hcallj
  exact hshared.owned.eq_of_permits hcalli rfl hcallj rfl

/-- A directory, with a link to it. -/
def linkedDirectory : FileSystem where
  node path := if path = ["real"] then some .directory
    else if path = ["link"] then some (.link ⟨true, [.normal "real"]⟩)
    else none
  maxLinks := 40

/-- No call has begun. -/
def fromFiles (files : FileSystem) : Mutations := ⟨.empty, files, [], fun _ => ⟨⟨true, []⟩, false⟩⟩

theorem run_fromFiles (files : FileSystem) (condition : Mutations → MutationEvent → Prop) :
    machine.Run condition (fromFiles files) := .start rfl

def throughLink : Spelling := ⟨true, [.normal "link", .normal "file"]⟩

/-- The file of a resolution is there, and so were those of all pending calls. -/
def allFound (s : Mutations) : MutationEvent → Bool
  | .resolve i => s.files.found (s.path i) && (List.range s.queue.calls.length).all fun j =>
    (s.queue.pendingKey j).isNone || (s.targets j).existed
  | _ => true

theorem agrees_of_allFound (h : s.allFound event = true) : s.Agrees event := by
  rintro i j loc rfl hj - -
  obtain ⟨hfnd, hall⟩ := Bool.and_eq_true_iff.mp h
  obtain ⟨key, hkey⟩ := isSome_iff_exists.mp hj
  have hexd := List.all_eq_true.mp hall j (List.mem_range.mpr (Queue.lt_of_pendingKey hkey))
  rw [hkey] at hexd
  exact .inl ⟨.inl hfnd, .inl hexd⟩

/-- A call through a link runs, and a call on the real path waits for it. -/
theorem mutations_of_one_file_exclude_link : ∃ s : Mutations, s.Running 0 ∧
    s.locate 0 = some ["real", "file"] ∧ s.locate 1 = some ["real", "file"] ∧ ¬s.Running 1 := by
  have hstart := run_fromFiles (linkedDirectory.create ["real", "file"] .file) Agrees
  obtain ⟨s, hrun, hs⟩ := hstart.execute allFound
    [.call throughLink, .call ⟨true, [.normal "real", .normal "file"]⟩, .resolve 0,
      .advance (.register 0), .advance (.clone 0), .advance (.acquire 0), .resolve 1,
      .advance (.register 1), .advance (.resume 0), .advance (.clone 1)]
    (fun s => s.queue.calls =
        [.held .running ["real", "file"] 0, .held .waiting ["real", "file"] 0] ∧
      s.locate 0 = some ["real", "file"] ∧ s.locate 1 = some ["real", "file"])
    (fun _ _ => agrees_of_allFound) (by decide +kernel)
  obtain ⟨hcalls, hfirst, hsecond⟩ := of_decide_eq_true hs
  have hrunning : s.Running 0 := by
    refine ⟨["real", "file"], 0, ?_⟩
    rw [hcalls]
    rfl
  refine ⟨s, hrunning, hfirst, hsecond, fun hwaiting => ?_⟩
  exact absurd (mutations_of_one_file_exclude hrun hrunning hwaiting hfirst hsecond) nofun

/-- A write creates a file whose directory is spelled through a link, and an edit with the same
spelling runs before the write has ended. -/
theorem write_and_edit_overlap : ∃ s, machine.Run (fun _ _ => True) s ∧
    (s.targets 0).filePath = throughLink ∧ (s.targets 1).filePath = throughLink ∧
    s.Running 0 ∧ s.Running 1 ∧ s.locate 0 = some ["real", "file"] ∧
    s.locate 1 = some ["real", "file"] := by
  obtain ⟨s, hrun, hs⟩ := (run_fromFiles linkedDirectory fun _ _ => True).execute (fun _ _ => true)
    [.call throughLink, .resolve 0, .advance (.register 0), .advance (.clone 0),
      .advance (.acquire 0), .advance (.resume 0), .create 0 ["real", "file"] .file,
      .call throughLink, .resolve 1, .advance (.register 1), .advance (.clone 1),
      .advance (.acquire 1), .advance (.resume 1)]
    (fun s => s.queue.calls =
        [.held .running ["link", "file"] 0, .held .running ["real", "file"] 1] ∧
      (s.targets 0).filePath = throughLink ∧ (s.targets 1).filePath = throughLink ∧
      s.locate 0 = some ["real", "file"] ∧ s.locate 1 = some ["real", "file"])
    (fun _ _ _ => trivial) (by decide +kernel)
  obtain ⟨hcalls, hfirst, hsecond, hlocate⟩ := of_decide_eq_true hs
  refine ⟨s, hrun, hfirst, hsecond, ⟨["link", "file"], 0, ?_⟩, ⟨["real", "file"], 1, ?_⟩, hlocate⟩
  · rw [hcalls]
    rfl
  · rw [hcalls]
    rfl

end Mutations

end PiOxidized.Tools
