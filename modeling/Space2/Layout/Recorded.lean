import Space2.Layout.Layout

/-!
# Dirt stays recorded

A change of root keeps the dirt of the nodes it visits while none of them waits in a
queue, unless the node keeps its root and its depth. Marking and updating always keep it.
-/
namespace Space2.Layout

open Space2.BucketQueue

variable {q : Queue ℕ ℕ} {s s' : Forest} {awaiting : Kind → Set ℕ} {fuel : ℕ}

/-! ## Queues that are not iterated -/

theorem enqueue_spec (hready : Ready q) (node : ℕ) (depth : Option ℕ) :
    Ready (enqueue q node depth) ∧
      (enqueue q node depth).lookup = Function.update q.lookup node (some (depth.getD 0)) := by
  have hremove : ∃ rest, q.remove numbers node = .ok rest := by
    unfold Queue.remove Queue.assertNotActiveBucketMutation
    rw [hready.inactive]
    cases q.lookup node <;> simp
  obtain ⟨rest, hrest⟩ := hremove
  by_cases hsame : q.lookup node = some (depth.getD 0)
  · have hrun : q.enqueue numbers node depth = .ok q := if_pos hsame
    rw [enqueue, hrun]
    refine ⟨hready, ?_⟩
    exact (Function.update_eq_self_iff.mpr hsame.symm).symm
  · have hrun : q.enqueue numbers node depth =
        .ok ((rest.ensureDepth (depth.getD 0)).put node (depth.getD 0)) := by
      unfold Queue.enqueue
      simp only [if_neg hsame, hready.inactive, hrest]
      simp
    obtain ⟨hconsistent, hfree⟩ := hready.consistent.remove hrest
    have hloop := sameLoop_remove hrest
    have hdepths := sameLoop_ensureDepth rest (depth.getD 0)
    have hother : ∀ n, n ≠ node → rest.lookup n = q.lookup n := fun n hn => lookup_remove hrest hn
    rw [enqueue, hrun]
    refine ⟨⟨?_, ?_⟩, ?_⟩
    · refine (hconsistent.ensureDepth _).put ?_ (depthSet_ensureDepth _ _)
      rw [lookup_ensureDepth]
      exact hfree
    · exact (hdepths.activeDepth.trans hloop.activeDepth).trans hready.inactive
    · funext n
      change Function.update (rest.ensureDepth (depth.getD 0)).lookup node (some (depth.getD 0)) n = _
      rw [lookup_ensureDepth]
      by_cases hn : n = node
      · subst hn
        rw [Function.update_self, Function.update_self]
      · rw [Function.update_of_ne hn, Function.update_of_ne hn, hother n hn]

theorem remove_spec (hready : Ready q) (node : ℕ) :
    Ready (remove q node) ∧ (remove q node).lookup = Function.update q.lookup node none := by
  have hremove : ∃ rest, q.remove numbers node = .ok rest := by
    unfold Queue.remove Queue.assertNotActiveBucketMutation
    rw [hready.inactive]
    cases q.lookup node <;> simp
  obtain ⟨rest, hrest⟩ := hremove
  obtain ⟨hconsistent, hfree⟩ := hready.consistent.remove hrest
  rw [remove, hrest]
  refine ⟨⟨hconsistent, (sameLoop_remove hrest).activeDepth.trans hready.inactive⟩, funext fun n => ?_⟩
  by_cases hn : n = node
  · subst hn
    rw [Function.update_self]
    exact hfree
  · rw [Function.update_of_ne hn]
    exact lookup_remove hrest hn

theorem clear_spec (hready : Ready q) : Ready q.clear ∧ ∀ node, q.clear.lookup node = none :=
  ⟨⟨.clear q, hready.inactive⟩, fun _ => rfl⟩

theorem mem_members (hready : Ready q) {node : ℕ} : node ∈ members q ↔ q.lookup node ≠ none := by
  have h := hready.consistent
  rw [members, List.mem_flatMap]
  constructor
  · rintro ⟨depth, -, hmem⟩ hnone
    rw [h.member, hnone] at hmem
    cases hmem
  · intro hsome
    obtain ⟨depth, hdepth⟩ := Option.ne_none_iff_exists'.mp hsome
    exact ⟨depth, (h.listed depth).mp (h.known node depth hdepth), (h.member node depth).mpr hdepth⟩

/-! ## The record of dirt -/

structure Recorded (awaiting : Kind → Set ℕ) (s : Forest) : Prop where
  ready : ∀ root kind, Ready (s.dirt root kind)
  alone : ∀ kind node root, (s.nodes node).root ≠ some root → s.queued root kind node = none
  attached : ∀ kind node root, node ∈ awaiting kind → (s.nodes node).root = some root →
    s.queued root kind node = some ((s.nodes node).depth.getD 0)
  detached : ∀ kind node, node ∈ awaiting kind → (s.nodes node).root = none → (s.nodes node).isDirty kind = true

theorem start_recorded : Recorded start.awaiting start.forest where
  ready _ _ :=
    { consistent :=
        { member := fun n d => ⟨fun h => absurd h List.not_mem_nil, fun h => by cases h⟩
          nodup := fun _ => List.nodup_nil
          known := fun _ _ h => by cases h
          listed := fun _ => ⟨(fun h => by cases h), fun h => absurd h List.not_mem_nil⟩
          ascending := List.Pairwise.nil }
      inactive := rfl }
  alone _ _ _ _ := rfl
  attached _ _ _ h := absurd h (Set.notMem_empty _)
  detached _ _ h := absurd h (Set.notMem_empty _)

/-- A node that may be given the root: it waits in no queue, or it stays where it is. -/
def Undisturbed (root : Option ℕ) (s : Forest) (node : ℕ) : Prop :=
  (∀ root, (s.nodes node).root = some root → ∀ kind, s.queued root kind node = none) ∨
    ((s.nodes node).root = root ∧ (s.nodes node).depth = s.depthUnder root node)

/-! ## One visit -/

theorem queued_setDirt (s : Forest) (root root' : ℕ) (kind kind' : Kind) (q : Queue ℕ ℕ) (node : ℕ) :
    (s.setDirt root kind q).queued root' kind' node =
      if root' = root ∧ kind' = kind then q.lookup node else s.queued root' kind' node := by
  rw [Forest.queued, Forest.setDirt]
  by_cases hroot : root' = root
  · subst hroot
    by_cases hkind : kind' = kind
    · subst hkind
      simp
    · simp [hkind, Forest.queued]
  · simp [hroot, Forest.queued]

theorem ready_setDirt (hready : ∀ root kind, Ready (s.dirt root kind)) (root : ℕ) (kind : Kind) (hq : Ready q) :
    ∀ root' kind', Ready ((s.setDirt root kind q).dirt root' kind') := by
  intro root' kind'
  rw [Forest.setDirt]
  by_cases hroot : root' = root
  · subst hroot
    by_cases hkind : kind' = kind
    · subst hkind
      simpa using hq
    · simpa [hkind] using hready root' kind'
  · simpa [hroot] using hready root' kind'

theorem queued_enqueue (hready : ∀ root kind, Ready (s.dirt root kind)) (root root' : ℕ) (kind kind' : Kind)
    (node n : ℕ) (depth : Option ℕ) :
    (s.setDirt root kind (enqueue (s.dirt root kind) node depth)).queued root' kind' n =
      if root' = root ∧ kind' = kind ∧ n = node then some (depth.getD 0) else s.queued root' kind' n := by
  rw [queued_setDirt, (enqueue_spec (hready root kind) node depth).2]
  by_cases hqueue : root' = root ∧ kind' = kind
  · obtain ⟨rfl, rfl⟩ := hqueue
    by_cases hn : n = node
    · simp [hn]
    · simp [hn, Forest.queued]
  · rw [if_neg hqueue, if_neg (fun h => hqueue ⟨h.1, h.2.1⟩)]

theorem queued_discard (hready : ∀ root kind, Ready (s.dirt root kind)) (root root' : ℕ) (kind kind' : Kind)
    (node n : ℕ) :
    (s.discard root node kind).queued root' kind' n =
      if root' = root ∧ kind' = kind ∧ n = node then none else s.queued root' kind' n := by
  rw [Forest.discard, queued_setDirt, (remove_spec (hready root kind) node).2]
  by_cases hqueue : root' = root ∧ kind' = kind
  · obtain ⟨rfl, rfl⟩ := hqueue
    by_cases hn : n = node
    · simp [hn]
    · simp [hn, Forest.queued]
  · rw [if_neg hqueue, if_neg (fun h => hqueue ⟨h.1, h.2.1⟩)]

theorem ready_discard (hready : ∀ root kind, Ready (s.dirt root kind)) (root node : ℕ) (kind : Kind) :
    ∀ root' kind', Ready ((s.discard root node kind).dirt root' kind') :=
  ready_setDirt hready root kind (remove_spec (hready root kind) node).1

/-- Only the flag of the kind and the place of the node in the queue change. -/
structure Transferred (root node : ℕ) (kind : Kind) (s s' : Forest) : Prop where
  ready : ∀ root' kind', Ready (s'.dirt root' kind')
  others : ∀ n, n ≠ node → s'.nodes n = s.nodes n
  itself : s'.nodes node = { s.nodes node with isDirty := Function.update (s.nodes node).isDirty kind false }
  queued : ∀ root' kind' n, s'.queued root' kind' n =
    if (root' = root ∧ kind' = kind ∧ n = node) ∧ (s.nodes node).isDirty kind = true then
      some ((s.nodes node).depth.getD 0)
    else s.queued root' kind' n

theorem transfer_spec (hready : ∀ root kind, Ready (s.dirt root kind)) (root node : ℕ) (kind : Kind) :
    Transferred root node kind s (s.transfer root node kind) := by
  rw [Forest.transfer]
  split
  case isTrue hdirty =>
    refine ⟨?_, fun n hn => ?_, ?_, fun root' kind' n => ?_⟩
    · exact ready_setDirt hready root kind (enqueue_spec (hready root kind) node _).1
    · exact Function.update_of_ne hn _ _
    · exact Function.update_self _ _ _
    · simp only [hdirty, and_true]
      exact queued_enqueue hready root root' kind kind' node n _
  case isFalse hclean =>
    have hflag : Function.update (s.nodes node).isDirty kind false = (s.nodes node).isDirty := by
      refine Function.update_eq_self_iff.mpr ?_
      simpa using hclean
    refine ⟨hready, fun _ _ => rfl, ?_, fun root' kind' n => ?_⟩
    · rw [hflag]
    · rw [if_neg fun h => hclean h.2]

/-- The dirt of a node moves from its flags to the queues of the root. -/
structure VisitedSome (root node : ℕ) (s s' : Forest) : Prop where
  ready : ∀ root' kind', Ready (s'.dirt root' kind')
  others : ∀ n, n ≠ node → s'.nodes n = s.nodes n
  rooted : (s'.nodes node).root = some root
  deep : (s'.nodes node).depth = s.depthUnder (some root) node
  queued : ∀ root' kind n, s'.queued root' kind n =
    if (root' = root ∧ n = node) ∧ (s.nodes node).isDirty kind = true then
      some ((s.depthUnder (some root) node).getD 0)
    else s.queued root' kind n

theorem visit_some (hready : ∀ root kind, Ready (s.dirt root kind)) (root node : ℕ) :
    VisitedSome root node s (s.visit (some root) node) := by
  let value : Node := { s.nodes node with root := some root, depth := s.depthUnder (some root) node }
  have hvalue : (s.setNode node value).nodes node = value := Function.update_self _ _ _
  have hfirst := transfer_spec (s := s.setNode node value) hready root node .measure
  have hsecond := transfer_spec hfirst.ready root node .layout
  have hvisit : s.visit (some root) node =
      ((s.setNode node value).transfer root node .measure).transfer root node .layout := rfl
  rw [hvisit]
  refine ⟨hsecond.ready, fun n hn => ?_, ?_, ?_, fun root' kind n => ?_⟩
  · rw [hsecond.others n hn, hfirst.others n hn]
    exact Function.update_of_ne hn _ _
  · rw [hsecond.itself, hfirst.itself, hvalue]
  · rw [hsecond.itself, hfirst.itself, hvalue]
  · rw [hsecond.queued, hfirst.queued, hfirst.itself, hvalue]
    have hold : (s.setNode node value).queued root' kind n = s.queued root' kind n := rfl
    rw [hold]
    cases kind <;> simp [value]

structure VisitedNone (node : ℕ) (s s' : Forest) : Prop where
  ready : ∀ root' kind', Ready (s'.dirt root' kind')
  others : ∀ n, n ≠ node → s'.nodes n = s.nodes n
  itself : s'.nodes node = { s.nodes node with root := none, depth := none }
  queued : ∀ root kind n, s'.queued root kind n =
    if (s.nodes node).root = some root ∧ n = node then none else s.queued root kind n

theorem visit_none (hready : ∀ root kind, Ready (s.dirt root kind)) (node : ℕ) :
    VisitedNone node s (s.visit none node) := by
  let value : Node := { s.nodes node with root := none, depth := none }
  have hready' : ∀ root kind, Ready ((s.setNode node value).dirt root kind) := hready
  cases hroot : (s.nodes node).root with
  | none =>
    have hvisit : s.visit none node = s.setNode node value := by
      simp only [Forest.visit, hroot]
      rfl
    rw [hvisit]
    refine ⟨hready, fun n hn => Function.update_of_ne hn _ _, Function.update_self _ _ _, fun root kind n => ?_⟩
    rw [if_neg (by simp [hroot])]
    rfl
  | some oldRoot =>
    have hvisit : s.visit none node =
        ((s.setNode node value).discard oldRoot node .measure).discard oldRoot node .layout := by
      simp only [Forest.visit, hroot]
      rfl
    have hfirst := ready_discard hready' oldRoot node .measure
    rw [hvisit]
    refine ⟨ready_discard hfirst oldRoot node .layout, fun n hn => Function.update_of_ne hn _ _,
      Function.update_self _ _ _, fun root kind n => ?_⟩
    rw [queued_discard hfirst, queued_discard hready', hroot]
    have hold : (s.setNode node value).queued root kind n = s.queued root kind n := rfl
    rw [hold]
    cases kind <;> simp [eq_comm]

theorem Recorded.visit (hrecorded : Recorded awaiting s) {root : Option ℕ} {node : ℕ}
    (hundisturbed : Undisturbed root s node) : Recorded awaiting (s.visit root node) := by
  cases root with
  | none =>
    have hvisited := visit_none hrecorded.ready node
    refine ⟨hvisited.ready, fun kind n root hroot => ?_, fun kind n root hn hroot => ?_, fun kind n hn hroot => ?_⟩
    · rw [hvisited.queued]
      by_cases hnode : n = node
      · subst hnode
        split
        · rfl
        case isFalse hother => exact hrecorded.alone kind n root fun h => hother ⟨h, rfl⟩
      · rw [hvisited.others n hnode] at hroot
        rw [if_neg fun h => hnode h.2]
        exact hrecorded.alone kind n root hroot
    · by_cases hnode : n = node
      · subst hnode
        rw [hvisited.itself] at hroot
        cases hroot
      · rw [hvisited.others n hnode] at hroot ⊢
        rw [hvisited.queued, if_neg fun h => hnode h.2]
        exact hrecorded.attached kind n root hn hroot
    · by_cases hnode : n = node
      · subst hnode
        rw [hvisited.itself]
        cases hold : (s.nodes n).root with
        | none => exact hrecorded.detached kind n hn hold
        | some oldRoot =>
          have hqueued := hrecorded.attached kind n oldRoot hn hold
          rcases hundisturbed with hfree | hstays
          · rw [hfree oldRoot hold kind] at hqueued
            cases hqueued
          · rw [hstays.1] at hold
            cases hold
      · rw [hvisited.others n hnode] at hroot ⊢
        exact hrecorded.detached kind n hn hroot
  | some root =>
    have hvisited := visit_some hrecorded.ready root node
    refine ⟨hvisited.ready, fun kind n root' hroot => ?_, fun kind n root' hn hroot => ?_, fun kind n hn hroot => ?_⟩
    · rw [hvisited.queued]
      by_cases hnode : n = node
      · subst hnode
        rw [hvisited.rooted] at hroot
        rw [if_neg fun h => hroot (congrArg some h.1.1.symm)]
        rcases hundisturbed with hfree | hstays
        · by_cases hold : (s.nodes n).root = some root'
          · exact hfree root' hold kind
          · exact hrecorded.alone kind n root' hold
        · exact hrecorded.alone kind n root' (hstays.1 ▸ hroot)
      · rw [hvisited.others n hnode] at hroot
        rw [if_neg fun h => hnode h.1.2]
        exact hrecorded.alone kind n root' hroot
    · by_cases hnode : n = node
      · subst hnode
        rw [hvisited.rooted] at hroot
        obtain rfl := Option.some.inj hroot
        rw [hvisited.queued, hvisited.deep]
        split
        · rfl
        case isFalse hclean =>
          have hflag : ¬ (s.nodes n).isDirty kind = true := fun h => hclean ⟨⟨rfl, rfl⟩, h⟩
          cases hold : (s.nodes n).root with
          | none => exact absurd (hrecorded.detached kind n hn hold) hflag
          | some oldRoot =>
            have hqueued := hrecorded.attached kind n oldRoot hn hold
            rcases hundisturbed with hfree | hstays
            · rw [hfree oldRoot hold kind] at hqueued
              cases hqueued
            · rw [hstays.1] at hold
              obtain rfl := Option.some.inj hold
              rw [hqueued, hstays.2]
      · rw [hvisited.others n hnode] at hroot ⊢
        rw [hvisited.queued, if_neg fun h => hnode h.1.2]
        exact hrecorded.attached kind n root' hn hroot
    · by_cases hnode : n = node
      · subst hnode
        rw [hvisited.rooted] at hroot
        cases hroot
      · rw [hvisited.others n hnode] at hroot ⊢
        exact hrecorded.detached kind n hn hroot

/-! ## Moves -/

/-- The fields that the record of dirt is about. -/
theorem Recorded.of_same (hrecorded : Recorded awaiting s) (hdirt : s'.dirt = s.dirt)
    (hroot : ∀ n, (s'.nodes n).root = (s.nodes n).root) (hdepth : ∀ n, (s'.nodes n).depth = (s.nodes n).depth)
    (hflag : ∀ n, (s'.nodes n).isDirty = (s.nodes n).isDirty) : Recorded awaiting s' := by
  have hqueued : ∀ root kind n, s'.queued root kind n = s.queued root kind n := fun root kind n => by
    rw [Forest.queued, hdirt, Forest.queued]
  refine ⟨fun root kind => hdirt ▸ hrecorded.ready root kind, fun kind n root h => ?_, fun kind n root hn h => ?_,
    fun kind n hn h => ?_⟩
  · rw [hqueued]
    exact hrecorded.alone kind n root (hroot n ▸ h)
  · rw [hqueued, hdepth]
    exact hrecorded.attached kind n root hn (hroot n ▸ h)
  · rw [hflag]
    exact hrecorded.detached kind n hn (hroot n ▸ h)

theorem setNode_field {α : Type} (f : Node → α) {node : ℕ} {value : Node} (hvalue : f value = f (s.nodes node))
    (n : ℕ) : f ((s.setNode node value).nodes n) = f (s.nodes n) := by
  by_cases hn : n = node
  · subst hn
    exact (congrArg f (Function.update_self _ _ _)).trans hvalue
  · exact congrArg f (Function.update_of_ne hn _ _)

theorem Recorded.setParent (hrecorded : Recorded awaiting s) (child : ℕ) (parent : Option ℕ) :
    Recorded awaiting (s.setParent child parent) :=
  hrecorded.of_same rfl (setNode_field Node.root rfl) (setNode_field Node.depth rfl) (setNode_field Node.isDirty rfl)

theorem Recorded.setChildList (hrecorded : Recorded awaiting s) (parent : ℕ) (children : List ℕ) :
    Recorded awaiting (s.setChildList parent children) :=
  hrecorded.of_same rfl (setNode_field Node.root rfl) (setNode_field Node.depth rfl) (setNode_field Node.isDirty rfl)

/-- Every node of the walk is undisturbed when it is visited. -/
def Throughout (root : Option ℕ) : ℕ → List ℕ → Forest → Prop
  | _, [], _ => True
  | 0, _ :: _, _ => True
  | fuel + 1, node :: stack, s =>
    Undisturbed root s node ∧ Throughout root fuel ((s.nodes node).children.reverse ++ stack) (s.visit root node)

theorem Recorded.setRootFrom {root : Option ℕ} {stack : List ℕ} (hrecorded : Recorded awaiting s)
    (hthroughout : Throughout root fuel stack s) (hrun : Forest.setRootFrom root fuel stack s = some s') :
    Recorded awaiting s' := by
  induction fuel generalizing stack s with
  | zero =>
    cases stack with
    | nil =>
      cases hrun
      exact hrecorded
    | cons node stack => cases hrun
  | succ fuel ih =>
    cases stack with
    | nil =>
      cases hrun
      exact hrecorded
    | cons node stack => exact ih (hrecorded.visit hthroughout.1) hthroughout.2 hrun

/-- No node that a move visits waits in the queue of its root, unless it stays where it is. -/
def Move.Undisturbing (fuel : ℕ) (s : Forest) : Move → Prop
  | .addChild parent child => Throughout (s.nodes parent).root fuel [child] (s.setParent child (some parent))
  | .removeChild parent index =>
    ∀ child, (s.nodes parent).children[index]? = some child → Throughout none fuel [child] (s.setParent child none)
  | .setRoot node root => Throughout root fuel [node] s

theorem Recorded.move (hrecorded : Recorded awaiting s) {move : Move} (hundisturbing : move.Undisturbing fuel s)
    (hrun : move.perform fuel s = some s') : Recorded awaiting s' := by
  cases move with
  | addChild parent child =>
    obtain ⟨moved, hmoved, hlisted⟩ := Option.bind_eq_some_iff.mp hrun
    cases hlisted
    exact ((hrecorded.setParent child (some parent)).setRootFrom hundisturbing hmoved).setChildList parent _
  | removeChild parent index =>
    rw [Move.perform, Forest.removeChild] at hrun
    cases hchild : (s.nodes parent).children[index]? with
    | none =>
      simp only [hchild] at hrun
      cases hrun
      exact hrecorded
    | some child =>
      simp only [hchild] at hrun
      obtain ⟨moved, hmoved, hlisted⟩ := Option.bind_eq_some_iff.mp hrun
      cases hlisted
      exact ((hrecorded.setParent child none).setRootFrom (hundisturbing child hchild) hmoved).setChildList parent _
  | setRoot node root => exact hrecorded.setRootFrom hundisturbing hrun

def MovesUndisturbing (fuel : ℕ) : List Move → Forest → Prop
  | [], _ => True
  | move :: moves, s =>
    move.Undisturbing fuel s ∧ ∀ s', move.perform fuel s = some s' → MovesUndisturbing fuel moves s'

theorem Recorded.moves {moves : List Move} (hrecorded : Recorded awaiting s)
    (hundisturbing : MovesUndisturbing fuel moves s) (hrun : moves.foldlM (Move.perform fuel) s = some s') :
    Recorded awaiting s' := by
  induction moves generalizing s with
  | nil =>
    cases hrun
    exact hrecorded
  | cons move moves ih =>
    rw [List.foldlM_cons] at hrun
    obtain ⟨moved, hmoved, hrest⟩ := Option.bind_eq_some_iff.mp hrun
    exact ih (hrecorded.move hundisturbing.1 hmoved) (hundisturbing.2 moved hmoved) hrest

/-! ## Marking -/

theorem Recorded.mark (hrecorded : Recorded awaiting s) (kind : Kind) (node : ℕ) :
    Recorded (Function.update awaiting kind (insert node (awaiting kind))) (s.mark kind node) := by
  have hnew : ∀ kind' n, n ∈ Function.update awaiting kind (insert node (awaiting kind)) kind' →
      (n = node ∧ kind' = kind) ∨ n ∈ awaiting kind' := by
    intro kind' n hn
    by_cases hkind : kind' = kind
    · subst hkind
      rw [Function.update_self] at hn
      exact hn.imp_left fun h => ⟨h, rfl⟩
    · rw [Function.update_of_ne hkind] at hn
      exact .inr hn
  rw [Forest.mark]
  cases hroot : (s.nodes node).root with
  | some root =>
    have hqueued := queued_enqueue (s := s) hrecorded.ready root
    refine ⟨ready_setDirt hrecorded.ready root kind (enqueue_spec (hrecorded.ready root kind) node _).1,
      fun kind' n root' h => ?_, fun kind' n root' hn h => ?_, fun kind' n hn h => ?_⟩
    · rw [hqueued]
      split
      case isTrue hsame =>
        obtain ⟨rfl, rfl, rfl⟩ := hsame
        exact absurd hroot h
      case isFalse => exact hrecorded.alone kind' n root' h
    · rw [hqueued]
      split
      case isTrue hsame =>
        obtain ⟨rfl, rfl, rfl⟩ := hsame
        rfl
      case isFalse hother =>
        rcases hnew kind' n hn with ⟨rfl, rfl⟩ | hn
        · have heq : some root' = some root := h.symm.trans hroot
          exact absurd ⟨Option.some.inj heq, rfl, rfl⟩ hother
        · exact hrecorded.attached kind' n root' hn h
    · rcases hnew kind' n hn with ⟨rfl, rfl⟩ | hn
      · have heq : (none : Option ℕ) = some root := h.symm.trans hroot
        cases heq
      · exact hrecorded.detached kind' n hn h
  | none =>
    let value : Node := { s.nodes node with isDirty := Function.update (s.nodes node).isDirty kind true }
    have hroots : ∀ n, ((s.setNode node value).nodes n).root = (s.nodes n).root := setNode_field Node.root rfl
    have hdepths : ∀ n, ((s.setNode node value).nodes n).depth = (s.nodes n).depth := setNode_field Node.depth rfl
    have hflags : ∀ n, n ≠ node → (s.setNode node value).nodes n = s.nodes n := fun n hn =>
      Function.update_of_ne hn _ _
    have hflag : (s.setNode node value).nodes node = value := Function.update_self _ _ _
    refine ⟨hrecorded.ready, fun kind' n root h => ?_, fun kind' n root hn h => ?_, fun kind' n hn h => ?_⟩
    · exact hrecorded.alone kind' n root (hroots n ▸ h)
    · have h' : (s.nodes n).root = some root := (hroots n).symm.trans h
      rcases hnew kind' n hn with ⟨rfl, rfl⟩ | hn
      · rw [hroot] at h'
        cases h'
      · have hqueued := hrecorded.attached kind' n root hn h'
        exact hqueued.trans (congrArg (fun depth => some (depth.getD 0)) (hdepths n).symm)
    · have h' : (s.nodes n).root = none := (hroots n).symm.trans h
      change ((s.setNode node value).nodes n).isDirty kind' = true
      by_cases hnode : n = node
      · subst hnode
        rw [hflag]
        by_cases hkind : kind' = kind
        · subst hkind
          exact Function.update_self _ _ _
        · have hold : n ∈ awaiting kind' := (hnew kind' n hn).resolve_left fun h => hkind h.2
          exact (Function.update_of_ne hkind _ _).trans (hrecorded.detached kind' n hold h')
      · rw [hflags n hnode]
        have hold : n ∈ awaiting kind' := (hnew kind' n hn).resolve_left fun h => hnode h.1
        exact hrecorded.detached kind' n hold h'

/-! ## Updating -/

theorem top_congr (hnodes : s'.nodes = s.nodes) (fuel node : ℕ) : s'.top fuel node = s.top fuel node := by
  induction fuel generalizing node with
  | zero =>
    unfold Forest.top
    rw [hnodes]
    cases (s.nodes node).parent <;> rfl
  | succ fuel ih =>
    unfold Forest.top
    rw [hnodes]
    cases (s.nodes node).parent with
    | none => rfl
    | some parent => exact ih parent

/-- The measure pass only adds to the layout queue of its root, and it measures the topmost
ancestor of every pending node. -/
structure Measured (fuel root : ℕ) (pending measured measured' : List ℕ) (s s' : Forest) : Prop where
  ready : ∀ root' kind, Ready (s'.dirt root' kind)
  nodes : s'.nodes = s.nodes
  others : ∀ root' kind, ¬ (root' = root ∧ kind = .layout) → s'.queued root' kind = s.queued root' kind
  layout : ∀ n, s.queued root .layout n ≠ none → s'.queued root .layout n ≠ none
  kept : ∀ n ∈ measured, n ∈ measured'
  tops : ∀ node ∈ pending, ∃ n ∈ measured', s.top fuel node = some n

theorem measureFrom_spec {root : ℕ} {pending measured measured' : List ℕ}
    (hready : ∀ root' kind, Ready (s.dirt root' kind))
    (hrun : Forest.measureFrom fuel root pending measured s = some (measured', s')) :
    Measured fuel root pending measured measured' s s' := by
  induction pending generalizing measured s with
  | nil =>
    cases hrun
    exact ⟨hready, rfl, fun _ _ _ => rfl, fun _ h => h, fun _ h => h, fun _ h => absurd h List.not_mem_nil⟩
  | cons node pending ih =>
    rw [Forest.measureFrom] at hrun
    cases htop : s.top fuel node with
    | none =>
      rw [htop] at hrun
      cases hrun
    | some n =>
      simp only [htop] at hrun
      split at hrun
      case isTrue hmem =>
        have hrest := ih hready hrun
        refine { hrest with tops := fun other hother => ?_ }
        rcases List.mem_cons.mp hother with rfl | hother
        · exact ⟨n, hrest.kept n hmem, htop⟩
        · exact hrest.tops other hother
      case isFalse =>
        have hqueued := queued_enqueue (s := s) hready root
        have hrest := ih (ready_setDirt hready root .layout (enqueue_spec (hready root .layout) n _).1) hrun
        have hnodes : (s.setDirt root .layout (enqueue (s.dirt root .layout) n (s.nodes n).depth)).nodes = s.nodes :=
          rfl
        refine ⟨hrest.ready, hrest.nodes, fun root' kind hother => ?_, fun m hm => ?_, fun m hm => ?_,
          fun other hother => ?_⟩
        · rw [hrest.others root' kind hother]
          funext m
          rw [hqueued, if_neg fun h => hother ⟨h.1, h.2.1⟩]
        · refine hrest.layout m ?_
          rw [hqueued]
          split
          · exact Option.some_ne_none _
          · exact hm
        · exact hrest.kept m (List.mem_cons_of_mem _ hm)
        · rcases List.mem_cons.mp hother with rfl | hother
          · exact ⟨n, hrest.kept n List.mem_cons_self, htop⟩
          · obtain ⟨m, hm, hmtop⟩ := hrest.tops other hother
            exact ⟨m, hm, hmtop ▸ (top_congr hnodes fuel other).symm⟩

theorem Recorded.update (hrecorded : Recorded awaiting s) {root : ℕ} {processed : Forest.Processed}
    (hrun : s.update fuel root = some (processed, s')) :
    Recorded (fun kind => {node ∈ awaiting kind | ¬ processed.Covers s node kind}) s' := by
  obtain ⟨⟨measured, s₁⟩, hmeasured, hrest⟩ := Option.bind_eq_some_iff.mp hrun
  have hspec := measureFrom_spec hrecorded.ready hmeasured
  let s₂ := s₁.setDirt root .measure (s₁.dirt root .measure).clear
  have hready₂ : ∀ root' kind, Ready (s₂.dirt root' kind) :=
    ready_setDirt hspec.ready root .measure (clear_spec (hspec.ready root .measure)).1
  have hresult : processed = ⟨measured, members (s₂.dirt root .layout)⟩ ∧
      s' = s₂.setDirt root .layout (s₂.dirt root .layout).clear := by
    cases hrest
    exact ⟨rfl, rfl⟩
  obtain ⟨rfl, rfl⟩ := hresult
  have hqueued : ∀ root' kind n, (s₂.setDirt root .layout (s₂.dirt root .layout).clear).queued root' kind n =
      if root' = root then none else s.queued root' kind n := by
    intro root' kind n
    rw [queued_setDirt, queued_setDirt]
    by_cases hroot : root' = root
    · subst hroot
      cases kind <;> simp [Queue.clear]
    · have hother := hspec.others root' kind fun h => hroot h.1
      simp [hroot, hother]
  have hnodes : (s₂.setDirt root .layout (s₂.dirt root .layout).clear).nodes = s.nodes := hspec.nodes
  have hcovered : ∀ kind n, n ∈ awaiting kind → (s.nodes n).root = some root →
      Forest.Processed.Covers ⟨measured, members (s₂.dirt root .layout)⟩ s n kind := by
    intro kind n hn hroot
    have hwaits : s.queued root kind n ≠ none := by
      rw [hrecorded.attached kind n root hn hroot]
      exact Option.some_ne_none _
    cases kind with
    | measure =>
      obtain ⟨top, htop, heq⟩ := hspec.tops n ((mem_members (hrecorded.ready root .measure)).mpr hwaits)
      exact ⟨fuel, top, htop, heq⟩
    | layout =>
      refine (mem_members (hready₂ root .layout)).mpr ?_
      have hsame : s₂.queued root .layout n = s₁.queued root .layout n := by
        rw [queued_setDirt, if_neg (by simp)]
      exact fun hnone => hspec.layout n hwaits (hsame.symm.trans hnone)
  refine ⟨ready_setDirt hready₂ root .layout (clear_spec (hready₂ root .layout)).1, fun kind n root' h => ?_,
    fun kind n root' hn h => ?_, fun kind n hn h => ?_⟩
  · rw [hqueued]
    rw [hnodes] at h
    split
    · rfl
    · exact hrecorded.alone kind n root' h
  · rw [hnodes] at h ⊢
    rw [hqueued]
    have hother : root' ≠ root := by
      rintro rfl
      exact hn.2 (hcovered kind n hn.1 h)
    rw [if_neg hother]
    exact hrecorded.attached kind n root' hn.1 h
  · rw [hnodes] at h ⊢
    exact hrecorded.detached kind n hn.1 h

/-! ## Runs -/

variable {w w' : World}

def Action.Undisturbing (fuel : ℕ) (s : Forest) : Action → Prop
  | .move single => single.Undisturbing fuel s
  | .setChildren parent children => MovesUndisturbing fuel (setChildrenMoves s parent children) s
  | _ => True

/-- Every action of the run leaves the nodes that wait where they are. -/
def Undisturbing (fuel : ℕ) : List Action → World → Prop
  | [], _ => True
  | action :: actions, w =>
    action.Undisturbing fuel w.forest ∧ ∀ w', w.perform fuel action = some w' → Undisturbing fuel actions w'

theorem recorded_perform (hrecorded : Recorded w.awaiting w.forest) {action : Action}
    (hundisturbing : action.Undisturbing fuel w.forest) (hrun : w.perform fuel action = some w') :
    Recorded w'.awaiting w'.forest := by
  cases action with
  | move move =>
    obtain ⟨s, hs, rfl⟩ := Option.map_eq_some_iff.mp hrun
    exact hrecorded.move hundisturbing hs
  | setChildren parent children =>
    obtain ⟨s, hs, rfl⟩ := Option.map_eq_some_iff.mp hrun
    exact hrecorded.moves hundisturbing hs
  | mark kind node =>
    cases hrun
    exact hrecorded.mark kind node
  | update root =>
    obtain ⟨⟨processed, s⟩, hs, rfl⟩ := Option.map_eq_some_iff.mp hrun
    exact hrecorded.update hs

/-- Dirt is where it has to be: a marked node waits in the queue of its root at its depth, or
in its flag, and no node waits in the queue of a root that it is not attached to. -/
structure World.Kept (w : World) : Prop where
  attached : ∀ kind node root, node ∈ w.awaiting kind → (w.forest.nodes node).root = some root →
    w.forest.queued root kind node = some ((w.forest.nodes node).depth.getD 0)
  detached : ∀ kind node, node ∈ w.awaiting kind → (w.forest.nodes node).root = none →
    (w.forest.nodes node).isDirty kind = true
  alone : ∀ kind node root other, (w.forest.nodes node).root = some root → other ≠ root →
    w.forest.queued other kind node = none

theorem Recorded.kept (hrecorded : Recorded w.awaiting w.forest) : w.Kept where
  attached := hrecorded.attached
  detached := hrecorded.detached
  alone kind node root other hroot hother := by
    refine hrecorded.alone kind node other fun h => hother ?_
    rw [hroot] at h
    exact (Option.some.inj h).symm

theorem dirt_stays_recorded (fuel : ℕ) (actions : List Action) (w : World)
    (hundisturbing : Undisturbing fuel actions start)
    (hrun : actions.foldlM (World.perform fuel) start = some w) : w.Kept := by
  have hstart := start_recorded
  generalize start = first at hundisturbing hrun hstart
  induction actions generalizing first with
  | nil =>
    cases hrun
    exact hstart.kept
  | cons action actions ih =>
    rw [List.foldlM_cons] at hrun
    obtain ⟨next, hnext, hrest⟩ := Option.bind_eq_some_iff.mp hrun
    exact ih next (hundisturbing.2 next hnext) hrest (recorded_perform hstart hundisturbing.1 hnext)

/-- A node is attached, marked, attached again at the same place, and updated. -/
theorem dirt_stays_recorded_again : (World.Kept <| ([.move (.setRoot 1 (some 0)), .mark .layout 1,
    .move (.setRoot 1 (some 0))].foldlM (World.perform 1) start).get rfl) := by
  refine dirt_stays_recorded 1 [.move (.setRoot 1 (some 0)), .mark .layout 1, .move (.setRoot 1 (some 0))] _
    ⟨⟨.inl (fun root h => by cases h), trivial⟩, ?_⟩ (Option.some_get _).symm
  intro rooted hrooted
  cases hrooted
  refine ⟨trivial, ?_⟩
  intro marked hmarked
  cases hmarked
  exact ⟨⟨.inr ⟨rfl, rfl⟩, trivial⟩, fun _ _ => trivial⟩

/-- A marked node that is removed and added again waits nowhere. -/
theorem dirt_lost : ¬ ∀ (fuel : ℕ) (actions : List Action) (w : World),
    actions.foldlM (World.perform fuel) start = some w → w.Kept := by
  intro hall
  let actions : List Action := [.move (.addChild 1 2), .move (.setRoot 1 (some 0)), .mark .layout 2,
    .move (.removeChild 1 0), .move (.addChild 1 2)]
  have hsome : (actions.foldlM (World.perform 2) start).isSome = true := rfl
  have hkept := hall 2 actions ((actions.foldlM (World.perform 2) start).get hsome) (Option.some_get hsome).symm
  have hmarked : 2 ∈ ((actions.foldlM (World.perform 2) start).get hsome).awaiting .layout := Set.mem_insert _ _
  have hlost : ((actions.foldlM (World.perform 2) start).get hsome).forest.queued 0 .layout 2 = none := rfl
  have hqueued := hkept.attached .layout 2 0 hmarked rfl
  rw [hlost] at hqueued
  cases hqueued

end Space2.Layout
