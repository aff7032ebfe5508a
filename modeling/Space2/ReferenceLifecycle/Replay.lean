import Mathlib.Data.List.Sort
import Space2.ReferenceLifecycle.Validation

/-!
# Replay of a pending intent

`replay` validates, applies every change but the source's in phase order, verifies, reconciles the
runtimes, verifies again, applies the source's change, verifies everything, and only then marks a
migration, emits and clears the pending file. The lemmas of this module say which file one
application may write; the run as a whole is treated in `Recovery`.
-/

namespace Space2.ReferenceLifecycle
open Base Base.Durable

variable {B V T : Type} [DecidableEq B] (codec : Codec B V T) (session : Session B V T)

/-- A change already in place is only reconciled in memory. -/
def settle (captures : List (Capture T)) (change : Change B) (snap : Snapshot B V) :
    Durable B V T Unit :=
  if snap.check = change.afterCheck then query (ownerReconcile codec session captures change)
  else ownerApply codec session change

def applyChange (intent : Intent B V T) (worlds : Key → Option String) (change : Change B) :
    Durable B V T Unit :=
  withContext (diagnostic intent (some change.owner) (some change)) do
    let snap ← query (verifiedSnapshot codec session change worlds)
    query fun _ => assertState change snap
    settle codec session intent.runtimeState change snap
    let done ← query (verifiedSnapshot codec session change worlds)
    query fun _ => ensure (done.check = change.afterCheck)
      ("owner did not persist frozen after-image: " ++ change.address)

/-- `source-change?` -/
def sourceChange (intent : Intent B V T) (change : Change B) : Bool :=
  match intent.sourceFingerprint with
  | none => false
  | some fingerprint => change.path = fingerprint.path

def Phase.rank : Phase → Nat
  | .replacement => 1
  | .incoming => 2
  | .retire => 3
  | .invalid _ => 0

/-- `changes-before?`, made reflexive for the insertion sort. -/
def changesBefore (a b : Change B) : Bool :=
  if a.phase.rank = b.phase.rank then decide (a.address ≤ b.address)
  else decide (a.phase.rank < b.phase.rank)

def verifyAfterChange (worlds : Key → Option String) (intent : Intent B V T) (source : Bool)
    (disk : Disk B V T) (change : Change B) : Except String Unit :=
  if source = true ∨ sourceChange intent change = false then do
    let snap ← verifiedSnapshot codec session change worlds disk
    ensure (snap.check = change.afterCheck)
      ("pending conflict verifying after-image: " ++ change.address)
  else return ()

def verifyAfter (intent : Intent B V T) (worlds : Key → Option String) (source : Bool)
    (disk : Disk B V T) : Except String Unit :=
  intent.changes.forM fun change =>
    (verifyAfterChange codec session worlds intent source disk change).mapError
      (diagnostic intent (some change.owner) (some change))

def migrationVersion : Nat := 1

def migrationReport (disk : Disk B V T) : Except String (Option MigrationReport) :=
  match disk.migration with
  | none => return none
  | some report => do
    ensure (report.version = migrationVersion) "unsupported migration version"
    return some report

def markMigration (intent : Intent B V T) : Durable B V T Unit :=
  if intent.operation.kind = .migrate then do
    let report : MigrationReport := ⟨migrationVersion, intent.dangling⟩
    let current ← query migrationReport
    match current with
    | some current => query fun _ => ensure (current = report) "migration completion conflict"
    | none => write (.markMigration report)
  else pure ()

def resultFor (intent : Intent B V T) (disk : Disk B V T) : Except String (Result V) :=
  match intent.operation.kind, intent.sourceFingerprint with
  | .migrate, _ => return .migrated ⟨migrationVersion, intent.dangling⟩
  | .delete, some fingerprint =>
    return .deleted intent.operation.sourceKey fingerprint.record intent.operation.retiring
  | _, some fingerprint =>
    match intent.operation.replacement with
    | none => throw "morph replacement missing"
    | some replacement => do
      let held ← match session.cached (address "code-entity" replacement.id) with
        | some value => Except.ok (some value)
        | none => Snapshot.value <$> snapshotRecord codec session .codeEntity replacement.id disk
      return .morphed held intent.operation.targetKey intent.operation.updatedIdentityKeys
        intent.operation.sourceKey (codec.recordId fingerprint.record)
  | _, none => throw "pending source fingerprint mismatch"

def verifySource (intent : Intent B V T) (worlds : Key → Option String) (disk : Disk B V T) :
    Except String Unit :=
  if intent.operation.kind = .migrate then return ()
  else do
    let source ← requestedChange intent
    Except.mapError (diagnostic intent (some source.owner) (some source)) do
      let actual ← verifiedSnapshot codec session source worlds disk
      assertSourceAfter codec intent.request.sourceKey actual.bytes actual.check

def clearPending : Durable B V T Unit := do
  let exists? ← query fun disk => return disk.pending.isSome
  if exists? then write .clearPending else pure ()

/-- The changes in the order of their phases and addresses. -/
def ordered (intent : Intent B V T) : List (Change B) :=
  intent.changes.insertionSort fun a b => changesBefore a b = true

/-- One pass over the changes that are, or are not, the source's. -/
def applyChanges (intent : Intent B V T) (worlds : Key → Option String) (source : Bool) :
    Durable B V T Unit :=
  (ordered intent).forM fun change =>
    if sourceChange intent change = source then applyChange codec session intent worlds change
    else pure ()

def replay (intent : Intent B V T) : Durable B V T (Result V) :=
  withContext (diagnostic intent none none) do
    let worlds ← query (validateIntent codec session intent)
    applyChanges codec session intent worlds false
    query (verifyAfter codec session intent worlds false)
    query fun _ => (session.reconcileRuntime intent.runtimeState).mapError
      (diagnostic intent (some .runtime) none)
    query (verifyAfter codec session intent worlds false)
    applyChanges codec session intent worlds true
    query (verifyAfter codec session intent worlds true)
    query (verifySource codec session intent worlds)
    markMigration intent
    let result ← query (resultFor codec session intent)
    query fun _ => session.emitCommitted result
    clearPending
    return result

section Frames

/-- At most the file of the change differs. -/
def Placed (change : Change B) (disk disk' : Disk B V T) : Prop :=
  disk' = disk ∨ ∃ image, disk' = disk.place change.path image

variable {codec session}

theorem persist_spec {domain : Domain} {id : String} {change : Change B} {bytes : B}
    {disk : Disk B V T} (hpath : session.recordPath domain id = .ok change.path) :
    Spec (· = disk) (persist codec session domain id change bytes) (Placed change disk)
      (fun _ => Placed change disk) := by
  unfold persist
  refine spec_query_bind (.inl rfl) fun candidate _ => ?_
  refine spec_query_bind (.inl rfl) fun image _ => ?_
  refine spec_query_bind (.inl rfl) fun _ _ => ?_
  refine spec_query_bind (.inl rfl) fun _ _ => ?_
  refine spec_query_bind (.inl rfl) fun path hp => ?_
  obtain rfl : change.path = path := Except.ok.inj (hpath.symm.trans hp)
  exact spec_write_bind (.inl rfl) (spec_query_at (.inr ⟨_, rfl⟩) fun _ _ => .inr ⟨_, rfl⟩)

omit [DecidableEq B] in
theorem removeIfPresent_spec {change : Change B} {disk : Disk B V T} :
    Spec (· = disk) (removeIfPresent change.path) (Placed change disk)
      (fun _ => Placed change disk) := by
  unfold removeIfPresent
  refine spec_query_bind (.inl rfl) fun exists? _ => spec_ite (fun _ => ?_) fun _ => ?_
  · exact spec_write fun _ h => h ▸ ⟨.inl rfl, .inr ⟨_, rfl⟩, .inr ⟨_, rfl⟩⟩
  · exact spec_pure_at (.inl rfl) (.inl rfl)

omit [DecidableEq B] in
theorem retire_spec {domain : Domain} {id : String} {change : Change B} {disk : Disk B V T}
    (hpath : session.recordPath domain id = .ok change.path) :
    Spec (· = disk) (retire codec session domain id change) (Placed change disk)
      (fun _ => Placed change disk) := by
  unfold retire
  refine spec_query_bind (.inl rfl) fun held _ => spec_ite (fun _ => ?_) fun _ => ?_
  · refine spec_query_bind (.inl rfl) fun path hp => ?_
    obtain rfl : change.path = path := Except.ok.inj (hpath.symm.trans hp)
    exact spec_bind removeIfPresent_spec fun _ => spec_query fun _ h => ⟨h, fun _ _ => h⟩
  · exact spec_pure_at (.inl rfl) (.inl rfl)

omit [DecidableEq B] in
theorem applyRecord_spec {owner : OwnerId} {locate : Key → Except String (Domain × String)}
    {mismatch : String} {commit : Domain → String → Durable B V T Unit} {change : Change B}
    {disk : Disk B V T}
    (h : ∀ domain id, session.recordPath domain id = .ok change.path →
      Spec (· = disk) (commit domain id) (Placed change disk) (fun _ => Placed change disk)) :
    Spec (· = disk) (applyRecord codec session owner locate mismatch commit change)
      (Placed change disk) (fun _ => Placed change disk) := by
  unfold applyRecord
  refine spec_query_bind (.inl rfl) fun _ _ => ?_
  refine spec_query_bind (.inl rfl) fun place _ => ?_
  refine spec_query_bind (.inl rfl) fun snap hsnap => ?_
  refine spec_query_bind (.inl rfl) fun _ heq => h _ _ ?_
  rw [ensure_eq_ok.mp heq]
  exact (snapshotRecord_check codec session hsnap).1

theorem persistOrRetire_spec {domain : Domain} {id : String} {change : Change B}
    {disk : Disk B V T} (hpath : session.recordPath domain id = .ok change.path) :
    Spec (· = disk) (persistOrRetire codec session change domain id) (Placed change disk)
      (fun _ => Placed change disk) := by
  unfold persistOrRetire
  split
  · exact retire_spec hpath
  · exact persist_spec hpath

theorem worldsApply_spec {change : Change B} {disk : Disk B V T} :
    Spec (· = disk) (Worlds.apply codec session change) (Placed change disk)
      (fun _ => Placed change disk) := by
  unfold Worlds.apply
  refine spec_query_bind (.inl rfl) fun path hpath => ?_
  simp only [Worlds.ownedPath, bind_eq_ok, ensure_eq_ok, pure_eq_ok] at hpath
  obtain ⟨-, -, -, -, path', -, -, hpath', rfl⟩ := hpath
  subst hpath'
  refine spec_query_bind (.inl rfl) fun candidate _ => ?_
  refine spec_query_bind (.inl rfl) fun snap _ => ?_
  refine spec_query_bind (.inl rfl) fun _ _ => ?_
  refine spec_bind (R := fun _ => Placed change disk) ?_ fun _ => spec_query fun _ h => ⟨h, fun _ _ => h⟩
  unfold Worlds.writeCandidate
  refine spec_ite (fun _ => spec_pure_at (.inl rfl) (.inl rfl)) fun _ => ?_
  refine spec_query_bind (.inl rfl) fun image _ => ?_
  exact spec_write fun _ h => h ▸ ⟨.inl rfl, .inr ⟨_, rfl⟩, .inr ⟨_, rfl⟩⟩

theorem ownerApply_spec {change : Change B} {disk : Disk B V T} :
    Spec (· = disk) (ownerApply codec session change) (Placed change disk)
      (fun _ => Placed change disk) := by
  unfold ownerApply
  split
  · exact applyRecord_spec fun _ _ hpath => persistOrRetire_spec hpath
  · exact applyRecord_spec fun _ _ hpath => persistOrRetire_spec hpath
  · refine applyRecord_spec fun _ _ hpath => ?_
    split
    · exact spec_query_at (.inl rfl) fun _ _ => .inl rfl
    · exact persist_spec hpath
  · exact worldsApply_spec
  · exact spec_query_at (.inl rfl) fun _ _ => .inl rfl
  · exact spec_query_at (.inl rfl) fun _ _ => .inl rfl

/-- What one application may leave behind: nothing new when the after-image is there already. -/
def Touches (codec : Codec B V T) (change : Change B) (disk disk' : Disk B V T) : Prop :=
  disk' = disk ∨ (¬ HoldsAfter codec change disk ∧ ∃ image, disk' = disk.place change.path image)

theorem applyChange_spec {intent : Intent B V T} {worlds : Key → Option String}
    {change : Change B} {disk : Disk B V T} :
    Spec (· = disk) (applyChange codec session intent worlds change) (Touches codec change disk)
      (fun _ disk' => Touches codec change disk disk' ∧ HoldsAfter codec change disk') := by
  refine spec_context (spec_query_bind (.inl rfl) fun snap hsnap => ?_)
  refine spec_query_bind (.inl rfl) fun _ _ => ?_
  refine spec_bind (R := fun _ => Touches codec change disk) ?_ fun _ => ?_
  · unfold settle
    refine spec_ite (fun _ => spec_query_at (.inl rfl) fun _ _ => .inl rfl) fun hcheck => ?_
    have hnot : ¬ HoldsAfter codec change disk := by
      intro hafter
      have heq := (verifiedSnapshot_check hsnap).2.2.symm.trans hafter
      exact hcheck (Except.ok.inj heq)
    have hplaced : ∀ disk', Placed change disk disk' → Touches codec change disk disk' :=
      fun _ h => h.imp id fun himage => ⟨hnot, himage⟩
    exact ownerApply_spec.weaken (fun _ h => h) hplaced fun _ => hplaced
  · refine spec_of_each fun disk' htouch => ?_
    refine spec_query_bind htouch fun done hdone => ?_
    refine spec_query_at htouch fun _ hcheck => ⟨htouch, ?_⟩
    exact (verifiedSnapshot_check hdone).2.2.trans (congrArg _ (ensure_eq_ok.mp hcheck))

end Frames

end Space2.ReferenceLifecycle
