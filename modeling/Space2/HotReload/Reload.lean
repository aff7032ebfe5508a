import Mathlib.Data.List.AList
import Mathlib.Data.List.Sort
import Space2.Base.Checks
import Space2.HotReload.Targets

/-!
# Reloading a unit

A reload clears the modules under the target's owned paths and loads the target again;
a failed one puts the modules back. A changed module outside those paths stays loaded,
and a reload that succeeds empties the queue of changes.
-/
namespace Space2.HotReload

open Space2.Base

/-! ## The runtime -/

/-- A module as it was loaded: at which load, from which file. -/
structure LoadedModule where
  stamp : Nat
  origin : Option Path
  deriving DecidableEq

structure Runtime where
  loaded : AList fun _ : ModuleName => LoadedModule
  knownModulePaths : ModuleName → Option Path
  clock : Nat
  stamped : ∀ name module, loaded.lookup name = some module → module.stamp < clock
  pendingEvents : List Change
  reloadCount : Nat

def Runtime.put (runtime : Runtime) (name : ModuleName) (module : LoadedModule) : Runtime where
  loaded := runtime.loaded.insert name module
  knownModulePaths := runtime.knownModulePaths
  clock := max runtime.clock (module.stamp + 1)
  stamped := by
    intro other found hfound
    by_cases hname : other = name
    · subst hname
      rw [AList.lookup_insert] at hfound
      obtain rfl := Option.some.inj hfound
      omega
    · rw [AList.lookup_insert_ne hname] at hfound
      have hlt := runtime.stamped other found hfound
      omega
  pendingEvents := runtime.pendingEvents
  reloadCount := runtime.reloadCount

def Runtime.clear (runtime : Runtime) (name : ModuleName) : Runtime where
  loaded := runtime.loaded.erase name
  knownModulePaths := runtime.knownModulePaths
  clock := runtime.clock
  stamped := by
    intro other found hfound
    by_cases hname : other = name
    · subst hname
      simp at hfound
    · rw [AList.lookup_erase_ne hname] at hfound
      exact runtime.stamped other found hfound
  pendingEvents := runtime.pendingEvents
  reloadCount := runtime.reloadCount

inductive Phase
  | snapshot | unload | load | restore | refreshExtensions
  | rollbackUnload | rollbackLoad | rollbackRestore | rollbackRefresh
  deriving DecidableEq

/-- Where the module search finds a file now, and what the hooks of the units require and raise. -/
structure Environment where
  moduleSourcePath : ModuleName → Option Path
  requires : LiveUnit → Phase → Runtime → List ModuleName
  raises : LiveUnit → Phase → Option String

variable (options : Options) (env : Environment)

/-- `require`, which remembers where the module was found. -/
def require (runtime : Runtime) (name : ModuleName) : Runtime :=
  let present := match runtime.loaded.lookup name with
    | some _ => runtime
    | none => runtime.put name ⟨runtime.clock, env.moduleSourcePath name⟩
  { present with knownModulePaths := fun other =>
      if other = name then (env.moduleSourcePath name).or (present.knownModulePaths name)
      else present.knownModulePaths other }

def runPhase (unit : LiveUnit) (phase : Phase) (runtime : Runtime) : Runtime :=
  (env.requires unit phase runtime).foldl (require env) runtime

/-! ## Modules of a unit -/

def modulePath (runtime : Runtime) (name : ModuleName) : Option Path :=
  (env.moduleSourcePath name).or (runtime.knownModulePaths name)

def collectOwnedLoadedModules (roots : List Path) (runtime : Runtime) : List ModuleName :=
  (runtime.loaded.keys.filter fun name => name ∉ options.preserveModules &&
    (modulePath env runtime name).any fun path => pathUnderAnyRoot options path roots).mergeSort fun a b => a ≤ b

/-- The paths that collecting the modules looks up are remembered. -/
def rememberPaths (runtime : Runtime) : Runtime :=
  { runtime with knownModulePaths := fun name =>
      if name ∈ runtime.loaded ∧ name ∉ options.preserveModules then modulePath env runtime name
      else runtime.knownModulePaths name }

def clearLoadedModules (names : List ModuleName) (runtime : Runtime) : Runtime := names.foldl Runtime.clear runtime

def captureLoadedModules (names : List ModuleName) (runtime : Runtime) : List (ModuleName × LoadedModule) :=
  names.filterMap fun name => (runtime.loaded.lookup name).map fun module => (name, module)

def restoreLoadedModules (backup : List (ModuleName × LoadedModule)) (runtime : Runtime) : Runtime :=
  backup.foldl (fun runtime entry => runtime.put entry.1 entry.2) runtime

/-! ## The transaction -/

structure Failure where
  runtime : Runtime
  mutated : Bool
  targetLoaded : Bool
  error : String

def attempt (unit : LiveUnit) (phase : Phase) (mutated targetLoaded : Bool) (runtime : Runtime) :
    Except Failure Runtime :=
  match env.raises unit phase with
  | some error => .error ⟨runPhase env unit phase runtime, mutated, targetLoaded, error⟩
  | none => .ok (runPhase env unit phase runtime)

def reloadTarget (target : LiveUnit) (names : List ModuleName) (runtime : Runtime) : Except Failure Runtime := do
  let unloaded ← attempt env target .unload true false runtime
  let loaded ← attempt env target .load true false (clearLoadedModules names unloaded)
  let restored ← attempt env target .restore true true loaded
  attempt env target .refreshExtensions true true restored

def rollback (target : LiveUnit) (names : List ModuleName) (backup : List (ModuleName × LoadedModule))
    (failedTargetLoaded : Bool) (runtime : Runtime) : Except Failure Runtime := do
  let unloaded ← if failedTargetLoaded = true then attempt env target .rollbackUnload true true runtime else .ok runtime
  let loaded ← attempt env target .rollbackLoad true true
    (restoreLoadedModules backup (clearLoadedModules names unloaded))
  let restored ← attempt env target .rollbackRestore true true loaded
  attempt env target .rollbackRefresh true true restored

inductive Rollback
  | notNeeded | restored | failed (error : String)
  deriving DecidableEq

structure Result where
  ok : Bool
  targetUnitId : String
  error : Option String
  rollback : Rollback
  deriving DecidableEq

def handleReloadFailure (target : LiveUnit) (names : List ModuleName) (backup : List (ModuleName × LoadedModule))
    (failure : Failure) : Runtime × Result :=
  if failure.mutated = true then
    match rollback env target names backup failure.targetLoaded failure.runtime with
    | .ok runtime => (runtime, ⟨false, target.id, some failure.error, .restored⟩)
    | .error second => (second.runtime, ⟨false, target.id, some failure.error, .failed second.error⟩)
  else (failure.runtime, ⟨false, target.id, some failure.error, .notNeeded⟩)

/-- Without a result the target could not be selected with the fuel. -/
def performReload (changes : List Change) (toRoot : Bool) (runtime : Runtime) (fuel : Nat) : Option (Runtime × Result) :=
  (targetUnit options changes toRoot fuel).map fun target =>
    let names := collectOwnedLoadedModules options env (unitOwnedPaths options target) runtime
    let backup := captureLoadedModules names runtime
    match attempt env target .snapshot false false (rememberPaths options env runtime) >>= reloadTarget env target names with
    | .ok reloaded =>
      ({ reloaded with pendingEvents := [], reloadCount := reloaded.reloadCount + 1 }, ⟨true, target.id, none, .notNeeded⟩)
    | .error failure => handleReloadFailure env target names backup failure

/-! ## What a reload owes -/

/-- The module was loaded from one of the changed files. -/
def Changed (changes : List Change) (module : LoadedModule) : Prop :=
  ∃ change ∈ changes, ∃ path, change.path = some path ∧ module.origin = some path

structure ReloadsChanged (changes : List Change) (toRoot : Bool) (runtime : Runtime) : Prop where
  ends : ∃ fuel, (performReload options env changes toRoot runtime fuel).isSome = true
  reloaded : ∀ fuel after result, performReload options env changes toRoot runtime fuel = some (after, result) →
    result.ok = true → ∀ name module, runtime.loaded.lookup name = some module → name ∉ options.preserveModules →
      Changed changes module → after.loaded.lookup name ≠ some module
  queued : ∀ fuel after result, performReload options env changes toRoot runtime fuel = some (after, result) →
    result.ok = true → ∀ event ∈ runtime.pendingEvents, event ∉ changes → event ∈ after.pendingEvents

/-- The unit that is reloaded. -/
def Selects (changes : List Change) (toRoot : Bool) (target : LiveUnit) : Prop :=
  let units := collectLiveUnits options
  let root := findRootUnit options units
  if toRoot = true then target = root
  else ∃ candidate, Candidate options units changes root candidate ∧ target = selectEligibleTargetUnit options candidate root

def reloadPhases : List Phase := [.snapshot, .unload, .load, .restore, .refreshExtensions]

/-- The chains of parents end, and where no hook of the selected unit raises, the unit owns the files of
all changed modules and the reload takes every queued change. -/
structure Encloses (changes : List Change) (toRoot : Bool) (runtime : Runtime) : Prop where
  chains : toRoot = true ∨ ChainsEnd options (collectLiveUnits options) changes
  owned : ∀ target, Selects options changes toRoot target → (∀ phase ∈ reloadPhases, env.raises target phase = none) →
    ∀ name module, runtime.loaded.lookup name = some module → name ∉ options.preserveModules → Changed changes module →
      ∃ path, modulePath env runtime name = some path ∧
        pathUnderAnyRoot options path (unitOwnedPaths options target) = true
  taken : ∀ target, Selects options changes toRoot target → (∀ phase ∈ reloadPhases, env.raises target phase = none) →
    ∀ event ∈ runtime.pendingEvents, event ∈ changes

/-! ## What running code does to the modules -/

/-- Loaded modules stay, and others are newer than all of them. -/
structure Runtime.Extends (before after : Runtime) : Prop where
  stays : ∀ name module, before.loaded.lookup name = some module → after.loaded.lookup name = some module
  newer : ∀ name module, after.loaded.lookup name = some module →
    before.loaded.lookup name = some module ∨ before.clock ≤ module.stamp
  clock : before.clock ≤ after.clock

variable {options env} {runtime before between after : Runtime}

theorem Runtime.Extends.refl (runtime : Runtime) : runtime.Extends runtime :=
  ⟨fun _ _ h => h, fun _ _ h => .inl h, Nat.le_refl _⟩

theorem Runtime.Extends.trans (hfirst : before.Extends between) (hsecond : between.Extends after) :
    before.Extends after := by
  constructor
  · intro name module hmodule
    exact hsecond.stays name module (hfirst.stays name module hmodule)
  · intro name module hmodule
    rcases hsecond.newer name module hmodule with hold | hnew
    · exact hfirst.newer name module hold
    · exact .inr (Nat.le_trans hfirst.clock hnew)
  · exact Nat.le_trans hfirst.clock hsecond.clock

theorem require_extends (runtime : Runtime) (name : ModuleName) : runtime.Extends (require env runtime name) := by
  rw [require]
  cases hname : runtime.loaded.lookup name with
  | some module => exact ⟨fun _ _ h => h, fun _ _ h => .inl h, Nat.le_refl _⟩
  | none =>
    constructor
    · intro other module hmodule
      have hne : other ≠ name := by
        rintro rfl
        cases hname.symm.trans hmodule
      simpa [Runtime.put, AList.lookup_insert_ne hne] using hmodule
    · intro other module hmodule
      by_cases hother : other = name
      · subst hother
        simp only [Runtime.put, AList.lookup_insert, Option.some.injEq] at hmodule
        rw [← hmodule]
        exact .inr (Nat.le_refl _)
      · simp only [Runtime.put, AList.lookup_insert_ne hother] at hmodule
        exact .inl hmodule
    · exact Nat.le_max_left _ _

theorem runPhase_extends (unit : LiveUnit) (phase : Phase) (runtime : Runtime) :
    runtime.Extends (runPhase env unit phase runtime) := by
  have hfold (names : List ModuleName) : runtime.Extends (names.foldl (require env) runtime) := by
    induction names generalizing runtime with
    | nil => exact Runtime.Extends.refl runtime
    | cons name rest ih => exact (require_extends runtime name).trans (ih (require env runtime name))
  exact hfold _

theorem lookup_clearLoadedModules (names : List ModuleName) (runtime : Runtime) (name : ModuleName) :
    (clearLoadedModules names runtime).loaded.lookup name =
      if name ∈ names then none else runtime.loaded.lookup name := by
  induction names generalizing runtime with
  | nil => simp [clearLoadedModules]
  | cons first rest ih =>
    have hrest := ih (runtime.clear first)
    rw [clearLoadedModules] at hrest ⊢
    rw [List.foldl_cons, hrest]
    by_cases hname : name = first
    · subst hname
      simp [Runtime.clear]
    · simp [hname, Runtime.clear, AList.lookup_erase_ne hname]

theorem clock_clearLoadedModules (names : List ModuleName) (runtime : Runtime) :
    (clearLoadedModules names runtime).clock = runtime.clock := by
  induction names generalizing runtime with
  | nil => rfl
  | cons first rest ih => exact ih (runtime.clear first)

theorem mem_collectOwnedLoadedModules {roots : List Path} {name : ModuleName} {module : LoadedModule}
    (hmodule : runtime.loaded.lookup name = some module) (hpreserve : name ∉ options.preserveModules) :
    name ∈ collectOwnedLoadedModules options env roots runtime ↔
      ∃ path, modulePath env runtime name = some path ∧ pathUnderAnyRoot options path roots = true := by
  have hloaded : name ∈ runtime.loaded.keys :=
    AList.mem_keys.mp (AList.lookup_isSome.mp (by rw [hmodule, Option.isSome_some]))
  simp [collectOwnedLoadedModules, hloaded, hpreserve, Option.any_eq_true]

/-! ## The transaction -/

theorem attempt_eq_ok {unit : LiveUnit} {phase : Phase} {mutated targetLoaded : Bool} :
    attempt env unit phase mutated targetLoaded runtime = .ok after ↔
      env.raises unit phase = none ∧ runPhase env unit phase runtime = after := by
  rw [attempt]
  cases env.raises unit phase with
  | none => simp
  | some error => simp

/-- What a reload runs when no hook raises. -/
def transaction (env : Environment) (target : LiveUnit) (names : List ModuleName) (runtime : Runtime) : Runtime :=
  let unloaded := runPhase env target .unload (runPhase env target .snapshot runtime)
  let loaded := runPhase env target .load (clearLoadedModules names unloaded)
  runPhase env target .refreshExtensions (runPhase env target .restore loaded)

theorem transaction_eq_ok {target : LiveUnit} {names : List ModuleName} :
    attempt env target .snapshot false false runtime >>= reloadTarget env target names = .ok after ↔
      (∀ phase ∈ reloadPhases, env.raises target phase = none) ∧ transaction env target names runtime = after := by
  simp only [reloadTarget, bind_eq_ok, attempt_eq_ok, reloadPhases, transaction]
  constructor
  · rintro ⟨_, ⟨hsnapshot, rfl⟩, _, ⟨hunload, rfl⟩, _, ⟨hload, rfl⟩, _, ⟨hrestore, rfl⟩, hrefresh, rfl⟩
    exact ⟨by simp [hsnapshot, hunload, hload, hrestore, hrefresh], rfl⟩
  · rintro ⟨hquiet, rfl⟩
    exact ⟨_, ⟨hquiet _ (by simp), rfl⟩, _, ⟨hquiet _ (by simp), rfl⟩, _, ⟨hquiet _ (by simp), rfl⟩, _,
      ⟨hquiet _ (by simp), rfl⟩, hquiet _ (by simp), rfl⟩

/-- A loaded module is replaced exactly when it is cleared. -/
theorem lookup_transaction (target : LiveUnit) (names : List ModuleName) {name : ModuleName} {module : LoadedModule}
    (hmodule : runtime.loaded.lookup name = some module) :
    (transaction env target names runtime).loaded.lookup name ≠ some module ↔ name ∈ names := by
  let unloaded := runPhase env target .unload (runPhase env target .snapshot runtime)
  have hbefore : runtime.Extends unloaded := (runPhase_extends target .snapshot runtime).trans (runPhase_extends target .unload _)
  have hafter : (clearLoadedModules names unloaded).Extends (transaction env target names runtime) :=
    ((runPhase_extends target .load _).trans (runPhase_extends target .restore _)).trans
      (runPhase_extends target .refreshExtensions _)
  constructor
  · intro hreplaced
    by_contra hname
    apply hreplaced
    apply hafter.stays
    rw [lookup_clearLoadedModules, if_neg hname]
    exact hbefore.stays name module hmodule
  · intro hname hsame
    rcases hafter.newer name module hsame with hold | hnew
    · rw [lookup_clearLoadedModules, if_pos hname] at hold
      cases hold
    · rw [clock_clearLoadedModules] at hnew
      have hclock := hbefore.clock
      have hstamp := runtime.stamped name module hmodule
      omega

/-! ## Selecting and reloading -/

variable {changes : List Change} {toRoot : Bool} {fuel : Nat} {target : LiveUnit}

theorem targetUnit_isSome_iff : (∃ fuel, (targetUnit options changes toRoot fuel).isSome = true) ↔
    toRoot = true ∨ ChainsEnd options (collectLiveUnits options) changes := by
  cases toRoot with
  | true => simp [targetUnit]
  | false => simp [targetUnit, resolveTargetUnit_isSome_iff]

theorem selects_of_targetUnit (htarget : targetUnit options changes toRoot fuel = some target) :
    Selects options changes toRoot target := by
  cases toRoot with
  | true => exact (Option.some.inj htarget).symm
  | false =>
    obtain ⟨candidate, hcandidate, rfl⟩ := Option.map_eq_some_iff.mp htarget
    exact ⟨candidate, candidate_of_resolveTargetUnit hcandidate, rfl⟩

theorem Selects.unique {other : LiveUnit} (htarget : targetUnit options changes toRoot fuel = some target)
    (hother : Selects options changes toRoot other) : other = target := by
  cases toRoot with
  | true => exact hother.trans (Option.some.inj htarget)
  | false =>
    obtain ⟨candidate, hcandidate, rfl⟩ := Option.map_eq_some_iff.mp htarget
    obtain ⟨other, hselected, rfl⟩ := hother
    rw [hselected.unique hcandidate]

theorem handleReloadFailure_not_ok (env : Environment) (target : LiveUnit) (names : List ModuleName)
    (backup : List (ModuleName × LoadedModule)) (failure : Failure) :
    (handleReloadFailure env target names backup failure).2.ok = false := by
  rw [handleReloadFailure]
  split
  · split <;> rfl
  · rfl

/-- What a reload that succeeds leaves loaded. -/
def reloadedRuntime (options : Options) (env : Environment) (target : LiveUnit) (runtime : Runtime) : Runtime :=
  let names := collectOwnedLoadedModules options env (unitOwnedPaths options target) runtime
  let reloaded := transaction env target names (rememberPaths options env runtime)
  { reloaded with pendingEvents := [], reloadCount := reloaded.reloadCount + 1 }

theorem performReload_spec (env : Environment) (runtime : Runtime)
    (htarget : targetUnit options changes toRoot fuel = some target) :
    ∃ after result, performReload options env changes toRoot runtime fuel = some (after, result) ∧
      (result.ok = true ↔ ∀ phase ∈ reloadPhases, env.raises target phase = none) ∧
      (result.ok = true → after = reloadedRuntime options env target runtime) := by
  rw [performReload, htarget, Option.map_some]
  cases hrun : attempt env target .snapshot false false (rememberPaths options env runtime) >>=
      reloadTarget env target (collectOwnedLoadedModules options env (unitOwnedPaths options target) runtime) with
  | ok reloaded =>
    obtain ⟨hquiet, hreloaded⟩ := transaction_eq_ok.mp hrun
    simp only [hrun]
    refine ⟨_, _, rfl, ⟨fun _ => hquiet, fun _ => rfl⟩, fun _ => ?_⟩
    rw [← hreloaded]
    rfl
  | error failure =>
    have hnotok := handleReloadFailure_not_ok env target
      (collectOwnedLoadedModules options env (unitOwnedPaths options target) runtime)
      (captureLoadedModules (collectOwnedLoadedModules options env (unitOwnedPaths options target) runtime) runtime) failure
    simp only [hrun]
    generalize handleReloadFailure env target _ _ failure = outcome at hnotok ⊢
    obtain ⟨after, result⟩ := outcome
    have hfailed : result.ok ≠ true := fun hok => Bool.noConfusion (hnotok.symm.trans hok)
    refine ⟨after, result, rfl, ⟨fun hok => absurd hok hfailed, fun hquiet => ?_⟩, fun hok => absurd hok hfailed⟩
    rw [transaction_eq_ok.mpr ⟨hquiet, rfl⟩] at hrun
    cases hrun

theorem lookup_reloadedRuntime (target : LiveUnit) {name : ModuleName} {module : LoadedModule}
    (hmodule : runtime.loaded.lookup name = some module) (hpreserve : name ∉ options.preserveModules) :
    (reloadedRuntime options env target runtime).loaded.lookup name ≠ some module ↔
      ∃ path, modulePath env runtime name = some path ∧
        pathUnderAnyRoot options path (unitOwnedPaths options target) = true := by
  rw [← mem_collectOwnedLoadedModules hmodule hpreserve]
  have hlooked : (rememberPaths options env runtime).loaded.lookup name = some module := hmodule
  exact lookup_transaction target _ hlooked

def groupUnit : LiveUnit := ⟨1, "group", some "root", ["/w/group.fnl".toList]⟩

/-- A group that owns its own file only, and two leaves under it. -/
def groupOptions : Options where
  unit := ⟨0, "root", none, ["/w".toList]⟩
  units := [groupUnit, ⟨2, "x", some "group", ["/w/x.fnl".toList]⟩, ⟨3, "y", some "group", ["/w/y.fnl".toList]⟩]
  rootUnitId := some "root"
  unitId := none
  watchPaths := ["/w".toList]
  narrowReloadUnitIds := ["group"]
  preserveModules := []
  windows := false

def leafChanges : List Change :=
  [⟨some "/w/x.fnl".toList, "modified", none⟩, ⟨some "/w/y.fnl".toList, "modified", none⟩]

def leafEnvironment : Environment where
  moduleSourcePath name := if name = "x" then some "/w/x.fnl".toList else none
  requires _ _ _ := []
  raises _ _ := none

def leafModule : LoadedModule := ⟨0, some "/w/x.fnl".toList⟩

def leafRuntime : Runtime :=
  Runtime.put ⟨∅, fun _ => none, 0, by simp, leafChanges, 0⟩ "x" leafModule

end Space2.HotReload
