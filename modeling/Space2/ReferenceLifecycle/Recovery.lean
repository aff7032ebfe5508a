import Space2.ReferenceLifecycle.Replay

/-!
# Crash recovery

A run is any number of replays of the pending intent, each in a session of its own and each
stopped after some prefix of its writes. `Recovering` is the invariant of such runs. Up to the
last write the pending file is there; the source's file is written only in states where every
other change is in place.
-/

set_option linter.unusedSectionVars false

namespace Space2.ReferenceLifecycle
open Base Base.Durable

variable {B V T : Type} [DecidableEq B] (codec : Codec B V T)

/-- Starting the lifecycle, or repeating the command, replays what the pending file holds. -/
def Replays (intent : Intent B V T) (disk : Disk B V T) (attempt : Durable B V T (Result V)) :
    Prop :=
  disk.pending = some intent ∧ ∃ session, attempt = replay codec session intent

def Untouched (intent : Intent B V T) (start disk : Disk B V T) : Prop :=
  ∀ path, (∀ change ∈ intent.changes, change.path ≠ path) → disk.files path = start.files path

def AllAfter (intent : Intent B V T) (disk : Disk B V T) : Prop :=
  ∀ change ∈ intent.changes, HoldsAfter codec change disk

def SourceLast (intent : Intent B V T) (disk : Disk B V T) : Prop :=
  ∀ source, requestedChange intent = .ok source → HoldsAfter codec source disk →
    AllAfter codec intent disk

structure Recovering (intent : Intent B V T) (start disk : Disk B V T) : Prop where
  untouched : Untouched intent start disk
  cleared : disk.pending = some intent ∨ disk.pending = none ∧ AllAfter codec intent disk
  sourceLast : intent.operation.kind ≠ .migrate → SourceLast codec intent start →
    SourceLast codec intent disk

/-- The invariant while one replay is under way. -/
structure Underway (intent : Intent B V T) (start disk : Disk B V T) : Prop where
  untouched : Untouched intent start disk
  pending : disk.pending = some intent
  sourceLast : intent.operation.kind ≠ .migrate → SourceLast codec intent start →
    SourceLast codec intent disk

structure Finished (intent : Intent B V T) (start disk : Disk B V T) : Prop where
  untouched : Untouched intent start disk
  pending : disk.pending = none
  allAfter : AllAfter codec intent disk

variable {codec}

section Steps
variable {session : Session B V T} {intent : Intent B V T} {start disk disk' : Disk B V T}
  {change : Change B}

theorem Underway.recovering (h : Underway codec intent start disk) :
    Recovering codec intent start disk :=
  ⟨h.untouched, .inl h.pending, h.sourceLast⟩

theorem requestedChange_mem {source : Change B} (h : requestedChange intent = .ok source) :
    source ∈ intent.changes := by
  simp only [requestedChange, bind_eq_ok] at h
  obtain ⟨address, -, h⟩ := h
  split at h
  next found hfound =>
    obtain rfl := pure_eq_ok.mp h
    exact List.mem_of_mem_filter (List.mem_of_getLast? hfound)
  next => simp at h

/-- Outside migrations the changes at the fingerprint's path are the requested one alone. -/
theorem Admitted.sourceChange_iff (h : Admitted codec session intent disk)
    (hkind : intent.operation.kind ≠ .migrate) {source : Change B}
    (hsource : requestedChange intent = .ok source) (hchange : change ∈ intent.changes) :
    sourceChange intent change = true ↔ change = source := by
  rcases h.source with ⟨hmigrate, -⟩ | ⟨-, source', fingerprint, hsource', hfp, hpath⟩
  · exact absurd hmigrate hkind
  obtain rfl : source = source' := Except.ok.inj (hsource.symm.trans hsource')
  simp only [sourceChange, hfp, hpath, decide_eq_true_eq]
  refine ⟨fun heq => ?_, fun heq => heq ▸ rfl⟩
  exact List.inj_on_of_nodup_map h.paths_nodup hchange (requestedChange_mem hsource) heq

theorem Touches.pending (h : Touches codec change disk disk') : disk'.pending = disk.pending := by
  rcases h with rfl | ⟨-, image, rfl⟩ <;> rfl

theorem Touches.other (h : Touches codec change disk disk') {path : String}
    (hpath : change.path ≠ path) : disk'.files path = disk.files path := by
  rcases h with rfl | ⟨-, image, rfl⟩
  · rfl
  · exact Disk.place_other hpath.symm

theorem Touches.untouched (h : Touches codec change disk disk') (hchange : change ∈ intent.changes)
    (hstart : Untouched intent start disk) : Untouched intent start disk' := fun path hpath =>
  (h.other (hpath change hchange)).trans (hstart path hpath)

/-- Writing another change cannot overtake the source: had the source been gone before, the
other change would have been in place and nothing would have been written. -/
theorem Touches.sourceLast_other (h : Touches codec change disk disk') {source : Change B}
    (hsource : requestedChange intent = .ok source) (hchange : change ∈ intent.changes)
    (hpath : change.path ≠ source.path) (hlast : SourceLast codec intent disk) :
    SourceLast codec intent disk' := by
  rcases h with rfl | ⟨hnot, image, rfl⟩
  · exact hlast
  intro source' hsource' hafter
  obtain rfl : source = source' := Except.ok.inj (hsource.symm.trans hsource')
  have hsame : HoldsAfter codec source disk :=
    (holdsAfter_congr codec (Disk.place_other hpath.symm)).mp hafter
  exact absurd (hlast source hsource hsame change hchange) hnot

theorem Underway.other (h : Underway codec intent start disk)
    (hadmitted : Admitted codec session intent disk') {next : Disk B V T}
    (hchange : change ∈ intent.changes) (hother : sourceChange intent change = false)
    (htouch : Touches codec change disk next) : Underway codec intent start next := by
  refine ⟨htouch.untouched hchange h.untouched, htouch.pending.trans h.pending, ?_⟩
  intro hkind hstart source hsource
  have hne : change.path ≠ source.path := by
    intro heq
    have hsame := List.inj_on_of_nodup_map hadmitted.paths_nodup hchange
      (requestedChange_mem hsource) heq
    rw [(hadmitted.sourceChange_iff hkind hsource hchange).mpr hsame] at hother
    exact Bool.noConfusion hother
  exact htouch.sourceLast_other hsource hchange hne (h.sourceLast hkind hstart) source hsource

def OthersAfter (codec : Codec B V T) (intent : Intent B V T) (disk : Disk B V T) : Prop :=
  ∀ change ∈ intent.changes, sourceChange intent change = false → HoldsAfter codec change disk

/-- Once every other change is in place the source may be written at any time. -/
theorem Underway.source (h : Underway codec intent start disk)
    (hothers : OthersAfter codec intent disk) (hadmitted : Admitted codec session intent disk')
    {next : Disk B V T} (hchange : change ∈ intent.changes)
    (hsource : sourceChange intent change = true) (htouch : Touches codec change disk next) :
    Underway codec intent start next ∧ OthersAfter codec intent next := by
  have hkept : OthersAfter codec intent next := by
    intro other hmem hother
    have hne : change.path ≠ other.path := by
      intro heq
      simp only [sourceChange, heq] at hsource hother
      exact Bool.noConfusion (hsource.symm.trans hother)
    exact (holdsAfter_congr codec (htouch.other hne)).mpr (hothers other hmem hother)
  refine ⟨⟨htouch.untouched hchange h.untouched, htouch.pending.trans h.pending, ?_⟩, hkept⟩
  intro hkind _ source hrequested hafter other hmem
  cases hother : sourceChange intent other with
  | false => exact hkept other hmem hother
  | true => exact (hadmitted.sourceChange_iff hkind hrequested hmem).mp hother ▸ hafter

theorem verifyAfter_ok {worlds : Key → Option String} {source : Bool}
    (h : verifyAfter codec session intent worlds source disk = .ok ()) :
    ∀ change ∈ intent.changes, (source = true ∨ sourceChange intent change = false) →
      HoldsAfter codec change disk := by
  intro change hchange hverified
  have hone := forM_eq_ok.mp h change hchange
  simp only [mapError_eq_ok, verifyAfterChange, if_pos hverified, bind_eq_ok, ensure_eq_ok] at hone
  obtain ⟨snap, hsnap, hcheck⟩ := hone
  exact (verifiedSnapshot_check hsnap).2.2.trans (congrArg _ hcheck)

end Steps

section Runs
variable {session : Session B V T} {intent : Intent B V T} {start : Disk B V T}

/-- A pass keeps whatever each of its applications keeps. -/
theorem applyChanges_spec {worlds : Key → Option String} {source : Bool}
    {J I : Disk B V T → Prop} (hI : ∀ disk, J disk → I disk)
    (hstep : ∀ change ∈ intent.changes, sourceChange intent change = source →
      ∀ disk disk', J disk → Touches codec change disk disk' → J disk') :
    Spec J (applyChanges codec session intent worlds source) I (fun _ => J) := by
  refine spec_forM (J := fun _ => J) (fun _ => hI) fun done change rest hordered => ?_
  have hchange : change ∈ intent.changes := by
    have hmem : change ∈ ordered intent := by rw [hordered]; simp
    exact (List.mem_insertionSort _).mp hmem
  refine spec_ite (fun hsource => spec_of_each fun disk hJ => ?_)
    fun _ => spec_pure fun disk hJ => ⟨hI disk hJ, hJ⟩
  have hkeep := fun disk' => hstep change hchange hsource disk disk' hJ
  exact applyChange_spec.weaken (fun _ h => h) (fun disk' h => hI disk' (hkeep disk' h))
    fun _ disk' h => hkeep disk' h.1

theorem markMigration_spec :
    Spec (fun disk => Underway codec intent start disk ∧ AllAfter codec intent disk)
      (markMigration intent) (Recovering codec intent start)
      (fun _ disk => Underway codec intent start disk ∧ AllAfter codec intent disk) := by
  unfold markMigration
  refine spec_ite (fun _ => ?_) fun _ => spec_pure fun _ h => ⟨h.1.recovering, h⟩
  refine spec_of_each fun disk h => spec_query_bind h.1.recovering fun current _ => ?_
  split
  · exact spec_query_at h.1.recovering fun _ _ => h
  · refine spec_write fun disk' heq => ?_
    subst heq
    have hunder : Underway codec intent start (Commits.commit disk'
        (Write.markMigration ⟨migrationVersion, intent.dangling⟩)) :=
      ⟨h.1.untouched, h.1.pending, h.1.sourceLast⟩
    exact ⟨h.1.recovering, hunder.recovering, hunder, h.2⟩

theorem clearPending_spec :
    Spec (fun disk => Underway codec intent start disk ∧ AllAfter codec intent disk)
      clearPending (Recovering codec intent start) (fun _ => Finished codec intent start) := by
  refine spec_of_each fun disk h => spec_query_bind h.1.recovering fun exists? hexists => ?_
  obtain rfl : exists? = true := by
    have := pure_eq_ok.mp hexists
    rw [h.1.pending] at this
    exact this.symm
  refine spec_write fun disk' heq => ?_
  subst heq
  exact ⟨h.1.recovering, ⟨h.1.untouched, .inr ⟨rfl, h.2⟩, fun _ _ _ _ _ => h.2⟩,
    h.1.untouched, rfl, h.2⟩

/-- The first pass, over the changes that are not the source's. -/
theorem otherPass_spec {worlds : Key → Option String} {disk : Disk B V T}
    (hadmitted : Admitted codec session intent disk) :
    Spec (Underway codec intent start) (applyChanges codec session intent worlds false)
      (Recovering codec intent start) (fun _ => Underway codec intent start) := by
  apply applyChanges_spec (fun _ hunder => hunder.recovering)
  intro change hchange hother before after hunder htouch
  exact hunder.other hadmitted hchange hother htouch

/-- The second pass, over the source's change alone. -/
theorem sourcePass_spec {worlds : Key → Option String} {disk : Disk B V T}
    (hadmitted : Admitted codec session intent disk) :
    Spec (fun disk => Underway codec intent start disk ∧ OthersAfter codec intent disk)
      (applyChanges codec session intent worlds true) (Recovering codec intent start)
      (fun _ disk => Underway codec intent start disk ∧ OthersAfter codec intent disk) := by
  apply applyChanges_spec (fun _ hboth => hboth.1.recovering)
  intro change hchange hsource before after hboth htouch
  exact hboth.1.source hboth.2 hadmitted hchange hsource htouch

/-- One replay, from any state a run may be in. -/
theorem replay_spec {disk : Disk B V T} (h : Underway codec intent start disk) :
    Spec (· = disk) (replay codec session intent) (Recovering codec intent start)
      (fun _ => Finished codec intent start) := by
  apply spec_context
  apply spec_query_bind h.recovering
  intro worlds hvalid
  have hadmitted := validateIntent_ok hvalid
  apply spec_bind ((otherPass_spec hadmitted).weaken (fun _ heq => heq ▸ h) (fun _ hI => hI)
    fun _ _ hQ => hQ)
  refine fun _ => spec_of_each fun disk hunder => ?_
  have hrecovering := hunder.recovering
  apply spec_query_bind hrecovering
  refine fun _ _ => spec_query_bind hrecovering fun _ _ => ?_
  apply spec_query_bind hrecovering
  intro _ hverified
  have hothers : OthersAfter codec intent disk := fun change hchange hother =>
    verifyAfter_ok hverified change hchange (.inr hother)
  apply spec_bind ((sourcePass_spec hadmitted).weaken (fun _ heq => heq ▸ ⟨hunder, hothers⟩)
    (fun _ hI => hI) fun _ _ hQ => hQ)
  refine fun _ => spec_of_each fun disk hboth => ?_
  have hrecovering := hboth.1.recovering
  apply spec_query_bind hrecovering
  intro _ hverified
  have hall : AllAfter codec intent disk := fun change hchange =>
    verifyAfter_ok hverified change hchange (.inl rfl)
  refine spec_query_bind hrecovering fun _ _ => ?_
  apply spec_bind (markMigration_spec.weaken (fun _ heq => heq ▸ ⟨hboth.1, hall⟩)
    (fun _ hI => hI) fun _ _ hQ => hQ)
  refine fun _ => spec_of_each fun disk hdone => ?_
  have hrecovering := hdone.1.recovering
  refine spec_query_bind hrecovering fun result _ => spec_query_bind hrecovering fun _ _ => ?_
  apply spec_bind (clearPending_spec.weaken (fun _ heq => heq ▸ hdone) (fun _ hI => hI)
    fun _ _ hQ => hQ)
  refine fun _ => spec_pure fun disk hfinished => ⟨?_, hfinished⟩
  exact ⟨hfinished.untouched, .inr ⟨hfinished.pending, hfinished.allAfter⟩,
    fun _ _ _ _ _ => hfinished.allAfter⟩

theorem Recovering.underway {disk : Disk B V T} (h : Recovering codec intent start disk)
    (hpending : disk.pending = some intent) : Underway codec intent start disk :=
  ⟨h.untouched, hpending, h.sourceLast⟩

theorem Recovering.initial (hpending : start.pending = some intent) :
    Recovering codec intent start start :=
  ⟨fun _ _ => rfl, .inl hpending, fun _ h => h⟩

/-- Every state a run can be in. -/
theorem restarted_recovering (hpending : start.pending = some intent) {disk : Disk B V T}
    (hrun : Restarted (Replays codec intent) start disk) :
    Recovering codec intent start disk := by
  refine restarted_invariant (I := Recovering codec intent start) ?_ hrun (.initial hpending)
  rintro disk attempt ⟨hpend, session, rfl⟩ hrec disk' hcrash
  exact (replay_spec (hrec.underway hpend)).crash disk rfl disk' hcrash

theorem replay_refused {disk : Disk B V T} {message : String}
    (h : validateIntent codec session intent disk = .error message) :
    replay codec session intent disk = ⟨[], .error (diagnostic intent none none message)⟩ := by
  simp only [replay, withContext, query_bind_error h, Except.mapError]

theorem replay_validated {disk : Disk B V T} {result : Result V}
    (h : (replay codec session intent disk).result = .ok result) :
    Admitted codec session intent disk := by
  cases hvalid : validateIntent codec session intent disk with
  | error message => rw [replay_refused hvalid] at h; cases h
  | ok worlds => exact validateIntent_ok hvalid

end Runs

/-! A list mentions a string entity that is deleted; the runs below are over these two records. -/
section Notes

abbrev Note := String × Nat

def noteCodec : Codec Note Note Unit := .plain Prod.fst fun _ => []

def noteSource : Change Note where
  owner := .entities
  address := "string-entity:s"
  path := "string-entity/s"
  format := .string
  phase := .retire
  beforeCheck := some ("s", 0)
  afterCheck := none
  afterBytes := none

def noteHolder : Change Note where
  owner := .entities
  address := "list-entity:l"
  path := "list-entity/l"
  format := .json
  phase := .incoming
  beforeCheck := some ("l", 1)
  afterCheck := some ("l", 0)
  afterBytes := some ("l", 0)

def noteIntent : Intent Note Note Unit where
  version := 1
  operationId := "op"
  request := ⟨.delete, some "string-entity:s", none⟩
  operation := ⟨.delete, some "string-entity:s", none, ["string-entity:s"], [], none, ⟨[], []⟩, 0⟩
  sourceFingerprint := some ⟨"string-entity/s", .string, some ("s", 0), ("s", 0)⟩
  changes := [noteSource, noteHolder]
  runtimeState := []
  dangling := []

def noteDisk (count : Nat) : Disk Note Note Unit where
  files path :=
    if path = "list-entity/l" then some ("l", count)
    else if path = "string-entity/s" then some ("s", 0) else none
  pending := some noteIntent
  migration := none

/-- The list is written first, then the string is removed, then the pending file. -/
theorem noteDisk_writes : (replay noteCodec .plain noteIntent (noteDisk 1)).writes =
    [.put "list-entity/l" ("l", 0), .remove "string-entity/s", .clearPending] := rfl

theorem noteDisk_crash {writes : List (Write Note)}
    (h : writes <+: (replay noteCodec .plain noteIntent (noteDisk 1)).writes) :
    Restarted (Replays noteCodec noteIntent) (noteDisk 1) (commitAll (noteDisk 1) writes) :=
  Relation.ReflTransGen.single ⟨_, ⟨rfl, .plain, rfl⟩, writes, h, rfl⟩

end Notes

section Guarantees
variable {intent : Intent B V T} {start : Disk B V T}

variable (codec) in
/-- Recovery after any number of crashes: no state of the run touches an unnamed path or clears
the pending file early, and the replay that runs to the end leaves the frozen after-images. -/
theorem replay_crash_recovery (hpending : start.pending = some intent) :
    (∀ disk, Restarted (Replays codec intent) start disk →
      Untouched intent start disk ∧ (disk.pending = none → AllAfter codec intent disk) ∧
        (disk.pending ≠ none → disk.pending = some intent)) ∧
    ∀ disk session result, Restarted (Replays codec intent) start disk →
      disk.pending = some intent → (replay codec session intent disk).result = .ok result →
      Finished codec intent start ((replay codec session intent).final disk) ∧
        ∀ change ∈ intent.changes, checkBytes codec change.format change.afterBytes =
          fileCheck codec change ((replay codec session intent).final disk) := by
  constructor
  · intro disk hrun
    have hrec := restarted_recovering hpending hrun
    refine ⟨hrec.untouched, fun hnone => ?_, fun hsome => ?_⟩
    · rcases hrec.cleared with hstill | ⟨-, hall⟩
      · rw [hnone] at hstill
        cases hstill
      · exact hall
    · rcases hrec.cleared with hstill | ⟨hnone, -⟩
      · exact hstill
      · exact absurd hnone hsome
  · intro disk session result hrun hpend hresult
    have hunder := (restarted_recovering hpending hrun).underway hpend
    have hfinished := (replay_spec hunder).post disk rfl result hresult
    refine ⟨hfinished, fun change hchange => ?_⟩
    rw [(replay_validated hresult).frozen change hchange]
    exact (hfinished.allAfter change hchange).symm

theorem replay_crash_recovery_note :
    Finished noteCodec noteIntent (noteDisk 1) ((replay noteCodec .plain noteIntent).final
      (commitAll (noteDisk 1) [.put "list-entity/l" ("l", 0)])) :=
  ((replay_crash_recovery noteCodec rfl).2 _ .plain _
    (noteDisk_crash (noteDisk_writes ▸ by simp)) rfl rfl).1

/-- A conflict anywhere in the intent stops a replay before its first write. -/
theorem replay_conflict_atomic {session : Session B V T} {disk : Disk B V T}
    (hconflict :
      (∃ change ∈ intent.changes,
        ¬ HoldsBefore codec change disk ∧ ¬ HoldsAfter codec change disk) ∨
      (∃ change ∈ intent.changes,
        checkBytes codec change.format change.afterBytes ≠ .ok change.afterCheck) ∨
      ¬ (intent.changes.map fun change => session.comparisonPath change.path).Nodup) :
    ∃ message, replay codec session intent disk = ⟨[], .error message⟩ ∧
      ∀ disk', (replay codec session intent).Crashes disk disk' → disk' = disk := by
  cases hvalid : validateIntent codec session intent disk with
  | ok worlds =>
    have hadmitted := validateIntent_ok hvalid
    rcases hconflict with ⟨change, hchange, hbefore, hafter⟩ | ⟨change, hchange, hfrozen⟩ | hpaths
    · exact absurd (hadmitted.state change hchange) (not_or.mpr ⟨hbefore, hafter⟩)
    · exact absurd (hadmitted.frozen change hchange) hfrozen
    · exact absurd hadmitted.distinct hpaths
  | error message =>
    refine ⟨_, replay_refused hvalid, ?_⟩
    rintro disk' ⟨ws, hinit, rfl⟩
    rw [replay_refused hvalid] at hinit
    rw [List.prefix_nil.mp hinit, commitAll_nil]

theorem replay_conflict_atomic_note :
    ∃ message, replay noteCodec .plain noteIntent (noteDisk 7) = ⟨[], .error message⟩ ∧
      ∀ disk', (replay noteCodec .plain noteIntent).Crashes (noteDisk 7) disk' →
        disk' = noteDisk 7 :=
  replay_conflict_atomic (.inl ⟨noteHolder, by simp [noteIntent], by decide, by decide⟩)

/-- While the source is still there when the first replay starts, its after-image is the last to
appear. So once it is gone no named record holds anything but its after-image, and what the
after-images and the unnamed records do not refer to, no record refers to. -/
theorem source_retired_last {source : Change B} (hpending : start.pending = some intent)
    (hkind : intent.operation.kind = .delete ∨ intent.operation.kind = .morph)
    (hsource : requestedChange intent = .ok source) (hstart : ¬ HoldsAfter codec source start)
    {disk : Disk B V T} (hrun : Restarted (Replays codec intent) start disk)
    (hgone : HoldsAfter codec source disk) :
    AllAfter codec intent disk ∧
    ∀ refers : Option B → Prop,
      (∀ change ∈ intent.changes, change.path ≠ source.path → ¬ refers change.afterCheck) →
      (∀ path, (∀ change ∈ intent.changes, change.path ≠ path) → ¬ refers (start.files path)) →
      (∀ change ∈ intent.changes, change.path ≠ source.path →
        ∃ check, fileCheck codec change disk = .ok check ∧ ¬ refers check) ∧
      ∀ path, (∀ change ∈ intent.changes, change.path ≠ path) → ¬ refers (disk.files path) := by
  have hrec := restarted_recovering hpending hrun
  have hmigrate : intent.operation.kind ≠ .migrate := by
    rcases hkind with h | h <;> simp [h]
  have hlast : SourceLast codec intent start := fun source' hsource' hafter =>
    absurd (Except.ok.inj (hsource.symm.trans hsource') ▸ hafter) hstart
  have hall := hrec.sourceLast hmigrate hlast source hsource hgone
  refine ⟨hall, fun refers hchanges hothers => ⟨fun change hchange hne => ?_, fun path hpath => ?_⟩⟩
  · exact ⟨_, hall change hchange, hchanges change hchange hne⟩
  · rw [hrec.untouched path hpath]
    exact hothers path hpath

theorem source_retired_last_note :
    AllAfter noteCodec noteIntent (commitAll (noteDisk 1)
      [.put "list-entity/l" ("l", 0), .remove "string-entity/s"]) := by
  have hinit : [.put "list-entity/l" ("l", 0), .remove "string-entity/s"] <+:
      (replay noteCodec .plain noteIntent (noteDisk 1)).writes := noteDisk_writes ▸ by simp
  have hsource : requestedChange noteIntent = .ok noteSource := rfl
  exact (source_retired_last rfl (.inl rfl) hsource (by decide) (noteDisk_crash hinit) rfl).1

end Guarantees

end Space2.ReferenceLifecycle
