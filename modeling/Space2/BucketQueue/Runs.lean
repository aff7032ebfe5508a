import Mathlib
import Space2.BucketQueue.Queue

/-!
# Every node once

Buckets and lookup agree whatever is asked of the queue. A callback that registers
no depth below the active one leaves the loop at its position, and then the loop
walks the depths upwards and gives every waiting node once.
-/
namespace Space2.BucketQueue

open Space2.Base

variable {N D : Type} [DecidableEq N] [LinearOrder D]

/-! ## Buckets and lookup -/

structure Consistent (q : Queue N D) : Prop where
  member : ∀ n d, n ∈ q.buckets d ↔ q.lookup n = some d
  nodup : ∀ d, (q.buckets d).Nodup
  known : ∀ n d, q.lookup n = some d → q.depthSet d = true
  listed : ∀ d, q.depthSet d = true ↔ d ∈ q.depths
  ascending : q.depths.Pairwise (· < ·)

variable {t : Texts N D} {q q' : Queue N D}

theorem Consistent.removed (h : Consistent q) {node : N} {depth : D}
    (hlookup : q.lookup node = some depth) : Consistent (q.removed node depth) where
  member := by
    intro n d
    change n ∈ Function.update q.buckets depth _ d ↔ Function.update q.lookup node none n = some d
    by_cases hd : d = depth
    · subst hd
      rw [Function.update_self, (h.nodup d).mem_erase_iff, h.member]
      by_cases hn : n = node
      · subst hn
        simp
      · simp [hn]
    · rw [Function.update_of_ne hd, h.member]
      by_cases hn : n = node
      · subst hn
        rw [Function.update_self, hlookup]
        simp [Ne.symm hd]
      · rw [Function.update_of_ne hn]
  nodup := by
    intro d
    change (Function.update q.buckets depth _ d).Nodup
    by_cases hd : d = depth
    · subst hd
      rw [Function.update_self]
      exact (h.nodup d).erase node
    · rw [Function.update_of_ne hd]
      exact h.nodup d
  known := by
    intro n d hn
    change Function.update q.lookup node none n = some d at hn
    by_cases hnode : n = node
    · subst hnode
      rw [Function.update_self] at hn
      cases hn
    · rw [Function.update_of_ne hnode] at hn
      exact h.known n d hn
  listed := h.listed
  ascending := h.ascending

theorem mem_registered {depths : List D} {depth d : D} :
    d ∈ tableSort (fun a b => decide (a < b)) (depths ++ [depth]) ↔ d ∈ depths ∨ d = depth := by
  rw [mem_tableSort, List.mem_append, List.mem_singleton]

theorem registered_ascending {depths : List D} {depth : D} (h : depths.Pairwise (· < ·))
    (hnew : depth ∉ depths) :
    (tableSort (fun a b => decide (a < b)) (depths ++ [depth])).Pairwise (· < ·) := by
  have hnodup : ((depths ++ [depth]).map fun d => d).Nodup := by
    rw [List.map_id']
    refine List.nodup_append.mpr ⟨h.imp ne_of_lt, List.nodup_singleton depth, ?_⟩
    intro a ha b hb
    rw [List.mem_singleton] at hb
    subst hb
    exact fun hsame => hnew (hsame ▸ ha)
  exact tableSort_strict (fun a b => decide_eq_true_iff) hnodup

omit [DecidableEq N] in
theorem Consistent.ensureDepth (h : Consistent q) (depth : D) : Consistent (q.ensureDepth depth) := by
  unfold Queue.ensureDepth
  split_ifs with hset
  · exact h
  · have hnew : depth ∉ q.depths := fun hmem => hset ((h.listed depth).mpr hmem)
    refine ⟨h.member, h.nodup, fun n d hn => ?_, fun d => ?_, registered_ascending h.ascending hnew⟩
    · change Function.update q.depthSet depth true d = true
      by_cases hd : d = depth
      · subst hd
        rw [Function.update_self]
      · rw [Function.update_of_ne hd]
        exact h.known n d hn
    · change Function.update q.depthSet depth true d = true ↔ d ∈ tableSort _ _
      rw [mem_registered]
      by_cases hd : d = depth
      · subst hd
        simp
      · rw [Function.update_of_ne hd, h.listed]
        simp [hd]

theorem Consistent.put (h : Consistent q) {node : N} {depth : D} (hfree : q.lookup node = none)
    (hset : q.depthSet depth = true) : Consistent (q.put node depth) where
  member := by
    intro n d
    change n ∈ Function.update q.buckets depth _ d ↔
      Function.update q.lookup node (some depth) n = some d
    by_cases hd : d = depth
    · subst hd
      rw [Function.update_self, List.mem_insert_iff, h.member]
      by_cases hn : n = node
      · subst hn
        simp
      · simp [hn]
    · rw [Function.update_of_ne hd, h.member]
      by_cases hn : n = node
      · subst hn
        rw [Function.update_self, hfree]
        simp [Ne.symm hd]
      · rw [Function.update_of_ne hn]
  nodup := by
    intro d
    change (Function.update q.buckets depth _ d).Nodup
    by_cases hd : d = depth
    · subst hd
      rw [Function.update_self]
      exact (h.nodup d).insert
    · rw [Function.update_of_ne hd]
      exact h.nodup d
  known := by
    intro n d hn
    change Function.update q.lookup node (some depth) n = some d at hn
    by_cases hnode : n = node
    · subst hnode
      rw [Function.update_self] at hn
      obtain rfl := Option.some.inj hn
      exact hset
    · rw [Function.update_of_ne hnode] at hn
      exact h.known n d hn
  listed := h.listed
  ascending := h.ascending

theorem Consistent.remove (h : Consistent q) {node : N} (hrun : q.remove t node = .ok q') :
    Consistent q' ∧ q'.lookup node = none := by
  rcases Queue.remove_cases hrun with ⟨hnone, rfl⟩ | ⟨depth, hlookup, rfl, -⟩
  · exact ⟨h, hnone⟩
  · refine ⟨h.removed hlookup, ?_⟩
    exact Function.update_self (β := fun _ => Option D) node none q.lookup

omit [DecidableEq N] in
theorem lookup_ensureDepth (q : Queue N D) (depth : D) :
    (q.ensureDepth depth).lookup = q.lookup := by
  unfold Queue.ensureDepth
  split_ifs <;> rfl

omit [DecidableEq N] in
theorem depthSet_ensureDepth (q : Queue N D) (depth : D) :
    (q.ensureDepth depth).depthSet depth = true := by
  unfold Queue.ensureDepth
  split_ifs with hset
  · exact hset
  · exact Function.update_self depth true q.depthSet

omit [DecidableEq N] in
theorem Consistent.clear (q : Queue N D) : Consistent q.clear where
  member := by
    intro n d
    exact ⟨fun hn => absurd hn List.not_mem_nil, fun hn => by cases hn⟩
  nodup := fun _ => List.nodup_nil
  known := by
    intro n d hn
    cases hn
  listed := by
    intro d
    exact ⟨nofun, fun hd => absurd hd List.not_mem_nil⟩
  ascending := List.Pairwise.nil

/-! ## The list of depths under the loop -/

/-- In an ascending list a member stands behind those below it. -/
theorem place_iff_count {depths : List D} (h : depths.Pairwise (· < ·)) {d : D} {position : Nat} :
    depths[position]? = some d ↔ d ∈ depths ∧ depths.countP (fun other => decide (other < d)) = position := by
  induction depths generalizing position with
  | nil => simp
  | cons first rest ih =>
    obtain ⟨hfirst, hrest⟩ := List.pairwise_cons.mp h
    rw [List.countP_cons]
    cases position with
    | zero =>
      rw [List.getElem?_cons_zero]
      constructor
      · intro hsame
        obtain rfl := Option.some.inj hsame
        refine ⟨List.mem_cons_self, ?_⟩
        have hnone : rest.countP (fun other => decide (other < first)) = 0 := by
          rw [List.countP_eq_zero]
          intro other hother
          simpa using (hfirst other hother).le
        simp [hnone]
      · rintro ⟨hmem, hcount⟩
        rcases List.mem_cons.mp hmem with rfl | hlater
        · rfl
        · have hbelow := hfirst d hlater
          simp [hbelow] at hcount
    | succ position =>
      rw [List.getElem?_cons_succ, ih hrest]
      constructor
      · rintro ⟨hmem, hcount⟩
        have hbelow := hfirst d hmem
        refine ⟨List.mem_cons_of_mem first hmem, ?_⟩
        simp [hbelow, hcount]
      · rintro ⟨hmem, hcount⟩
        rcases List.mem_cons.mp hmem with rfl | hlater
        · have hnone : rest.countP (fun other => decide (other < d)) = 0 := by
            rw [List.countP_eq_zero]
            intro other hother
            simpa using (hfirst other hother).le
          simp [hnone] at hcount
        · have hbelow := hfirst d hlater
          refine ⟨hlater, ?_⟩
          simpa [hbelow] using hcount

omit [DecidableEq N] in
/-- A depth above the active one is registered behind it. -/
theorem place_ensureDepth (h : Consistent q) {position : Nat} {active depth : D}
    (hplace : q.depths[position]? = some active)
    (hdepth : q.depthSet depth = true ∨ active < depth) :
    (q.ensureDepth depth).depths[position]? = some active := by
  have hafter := (h.ensureDepth depth).ascending
  rw [place_iff_count hafter]
  obtain ⟨hmem, hcount⟩ := (place_iff_count h.ascending).mp hplace
  unfold Queue.ensureDepth
  split_ifs with hset
  · exact ⟨hmem, hcount⟩
  · have habove := hdepth.resolve_left hset
    refine ⟨mem_registered.mpr (.inl hmem), ?_⟩
    change (tableSort _ (q.depths ++ [depth])).countP _ = position
    rw [(tableSort_perm _ _).countP_eq, List.countP_append, hcount]
    simp [habove.le]

omit [DecidableEq N] [LinearOrder D] in
theorem seek_none {position : Nat} {depths : List D} (h : seek q position depths = none) :
    ∀ d ∈ depths, q.buckets d = [] := by
  induction depths generalizing position with
  | nil =>
    intro d hd
    exact absurd hd List.not_mem_nil
  | cons first rest ih =>
    unfold seek at h
    split_ifs at h with hempty
    intro d hd
    rcases List.mem_cons.mp hd with rfl | hrest
    · exact hempty
    · exact ih h d hrest

omit [DecidableEq N] [LinearOrder D] in
theorem seek_some {position : Nat} {depths : List D} {cursor : Cursor N D}
    (h : seek q position depths = some cursor) :
    ∃ skipped rest, depths = skipped ++ cursor.depth :: rest ∧
      cursor.position = position + skipped.length ∧ (∀ d ∈ skipped, q.buckets d = []) ∧
      cursor.pending = q.buckets cursor.depth ∧ cursor.pending ≠ [] := by
  induction depths generalizing position with
  | nil => cases h
  | cons first rest ih =>
    unfold seek at h
    split_ifs at h with hempty
    · obtain ⟨skipped, others, hsplit, hposition, hall, hpending⟩ := ih h
      refine ⟨first :: skipped, others, by rw [hsplit]; rfl, ?_, ?_, hpending⟩
      · rw [hposition, List.length_cons]
        omega
      · exact List.forall_mem_cons.mpr ⟨hempty, hall⟩
    · obtain rfl := Option.some.inj h
      exact ⟨[], rest, rfl, rfl, fun d hd => absurd hd List.not_mem_nil, rfl, hempty⟩

variable [Zero D]

theorem Consistent.perform (h : Consistent q) {request : Request N D}
    (hrun : request.perform t q = .ok q') : Consistent q' := by
  cases request with
  | enqueue node depth =>
    rcases Queue.enqueue_cases hrun with ⟨-, rfl⟩ | ⟨-, -, -, rest, hremove, rfl⟩
    · exact h
    · obtain ⟨hrest, hfree⟩ := h.remove hremove
      refine (hrest.ensureDepth _).put ?_ (depthSet_ensureDepth rest _)
      rw [lookup_ensureDepth, hfree]
  | remove node => exact (h.remove hrun).1
  | fail message => cases hrun

/-! ## Orderly callbacks -/

/-- No depth is registered below the active one. -/
def Request.Orderly (q : Queue N D) (active : D) : Request N D → Prop
  | .enqueue node depth => q.depthSet (depth.getD 0) = true ∨ active < depth.getD 0 ∨
      q.lookup node = some active
  | _ => True

def OrderlyAll (t : Texts N D) (active : D) : List (Request N D) → Queue N D → Prop
  | [], _ => True
  | request :: rest, q => request.Orderly q active ∧
    match request.perform t q with
    | .error _ => True
    | .ok q' => OrderlyAll t active rest q'

def Orderly (t : Texts N D) (s : System N D) (action : Action N D) : Prop :=
  match s.loop, action with
  | .running cursor, .visit node requests =>
    OrderlyAll t cursor.depth requests { s.queue with activeKey := some node }
  | _, _ => True

instance (q : Queue N D) (active : D) : (request : Request N D) → Decidable (request.Orderly q active)
  | .enqueue _ _ => inferInstanceAs (Decidable (_ ∨ _))
  | .remove _ => inferInstanceAs (Decidable True)
  | .fail _ => inferInstanceAs (Decidable True)

instance OrderlyAll.decidable (t : Texts N D) (active : D) :
    (requests : List (Request N D)) → (q : Queue N D) → Decidable (OrderlyAll t active requests q)
  | [], _ => inferInstanceAs (Decidable True)
  | request :: rest, q =>
    match hrun : request.perform t q with
    | .error _ => decidable_of_iff (request.Orderly q active) (by simp [OrderlyAll, hrun])
    | .ok q' =>
      have := OrderlyAll.decidable t active rest q'
      decidable_of_iff (request.Orderly q active ∧ OrderlyAll t active rest q')
        (by simp [OrderlyAll, hrun])

instance (t : Texts N D) (s : System N D) (action : Action N D) : Decidable (Orderly t s action) := by
  unfold Orderly
  split <;> infer_instance

def Request.node : Request N D → Option N
  | .enqueue node _ => some node
  | .remove node => some node
  | .fail _ => none

omit [Zero D] in
theorem lookup_remove {node : N} (h : q.remove t node = .ok q') {n : N} (hn : n ≠ node) :
    q'.lookup n = q.lookup n := by
  rcases Queue.remove_cases h with ⟨-, rfl⟩ | ⟨depth, -, rfl, -⟩
  · rfl
  · exact Function.update_of_ne hn none q.lookup

/-- A request moves its own node only. -/
theorem lookup_perform {request : Request N D} (h : request.perform t q = .ok q') {n : N}
    (hn : request.node ≠ some n) : q'.lookup n = q.lookup n := by
  cases request with
  | enqueue node depth =>
    have hother : n ≠ node := fun hsame => hn (congrArg some hsame.symm)
    rcases Queue.enqueue_cases h with ⟨-, rfl⟩ | ⟨-, -, -, rest, hremove, rfl⟩
    · rfl
    · refine (Function.update_of_ne hother _ _).trans ?_
      rw [lookup_ensureDepth, lookup_remove hremove hother]
  | remove node => exact lookup_remove h fun hsame => hn (congrArg some hsame.symm)
  | fail message => cases h

/-- Of the active bucket only the active key can be taken. -/
theorem perform_kept {request : Request N D} (h : request.perform t q = .ok q') {active : D}
    (hactive : q.activeDepth = some active) (hiterating : q.iterating = true) {n : N}
    (hn : q.lookup n = some active) (hkey : q.activeKey ≠ some n) : q'.lookup n = some active := by
  by_cases hnode : request.node = some n
  · cases request with
    | enqueue node depth =>
      obtain rfl := Option.some.inj hnode
      rcases Queue.enqueue_cases h with ⟨-, rfl⟩ | ⟨-, -, hother, -⟩
      · exact hn
      · exact absurd (hn.trans hactive.symm) (hother (by rw [hactive]; exact Option.some_ne_none _))
    | remove node =>
      obtain rfl := Option.some.inj hnode
      rcases Queue.remove_cases h with ⟨-, rfl⟩ | ⟨depth, hdepth, -, hallowed⟩
      · exact hn
      · have hsame : q.activeDepth = some depth := by rw [hactive, ← hdepth, hn]
        exact absurd (hallowed hiterating hsame) hkey
    | fail message => cases hnode
  · rw [lookup_perform h hnode, hn]

/-- The loop is at the cursor: the rest of the bucket is still in it. -/
structure AtCursor (q : Queue N D) (cursor : Cursor N D) : Prop where
  activeDepth : q.activeDepth = some cursor.depth
  iterating : q.iterating = true
  place : q.depths[cursor.position]? = some cursor.depth
  nodup : cursor.pending.Nodup
  waiting : ∀ n ∈ cursor.pending, q.lookup n = some cursor.depth

theorem place_perform (h : Consistent q) {request : Request N D} {position : Nat} {active : D}
    (hplace : q.depths[position]? = some active) (hactive : q.activeDepth = some active)
    (horderly : request.Orderly q active) (hrun : request.perform t q = .ok q') :
    q'.depths[position]? = some active := by
  cases request with
  | enqueue node depth =>
    rcases Queue.enqueue_cases hrun with ⟨-, rfl⟩ | ⟨-, -, hother, rest, hremove, rfl⟩
    · exact hplace
    · have hrest : rest.depths = q.depths ∧ rest.depthSet = q.depthSet := by
        rcases Queue.remove_cases hremove with ⟨-, rfl⟩ | ⟨_, -, rfl, -⟩ <;> exact ⟨rfl, rfl⟩
      change (rest.ensureDepth (depth.getD 0)).depths[position]? = some active
      refine place_ensureDepth (h.remove hremove).1 (by rw [hrest.1]; exact hplace) ?_
      rw [hrest.2]
      rcases horderly with hset | habove | hsame
      · exact .inl hset
      · exact .inr habove
      · exact absurd (hsame.trans hactive.symm) (hother (by rw [hactive]; exact Option.some_ne_none _))
  | remove node =>
    rcases Queue.remove_cases hrun with ⟨-, rfl⟩ | ⟨_, -, rfl, -⟩ <;> exact hplace
  | fail message => cases hrun

/-! ## Credits -/

/-- The node is queued at a depth the loop has still to come to, or still to be given. -/
def Ahead (q : Queue N D) (cursor : Cursor N D) (n : N) : Prop :=
  (∃ d, q.lookup n = some d ∧ cursor.depth < d) ∨ n ∈ cursor.pending

/-- Every node was given at most as often as it was enqueued, and a node ahead can be given
once more. -/
structure Counted (visits : List (N × D)) (credits : N → Nat) (ahead : N → Prop) : Prop where
  given : ∀ n, (visits.map Prod.fst).count n ≤ credits n
  ahead : ∀ n, ahead n → (visits.map Prod.fst).count n + 1 ≤ credits n

variable {visits : List (N × D)} {credits : N → Nat}

theorem Counted.perform {cursor : Cursor N D} (h : Counted visits credits (Ahead q cursor))
    {request : Request N D} (hrun : request.perform t q = .ok q') :
    Counted visits (request.credit q credits) (Ahead q' cursor) := by
  have hgrows : ∀ n, credits n ≤ request.credit q credits n := by
    intro n
    cases request with
    | enqueue node depth =>
      rw [credit_enqueue]
      split_ifs with hsame
      · exact le_rfl
      · by_cases hn : n = node
        · subst hn
          rw [Function.update_self]
          exact Nat.le_succ _
        · rw [Function.update_of_ne hn]
    | remove node => exact le_rfl
    | fail message => exact le_rfl
  refine ⟨fun n => (h.given n).trans (hgrows n), fun n hn => ?_⟩
  by_cases hnode : request.node = some n
  · cases request with
    | enqueue node depth =>
      obtain rfl := Option.some.inj hnode
      rcases Queue.enqueue_cases hrun with ⟨-, rfl⟩ | ⟨hnew, -⟩
      · exact (h.ahead _ hn).trans (hgrows _)
      · rw [credit_enqueue, if_neg hnew, Function.update_self]
        exact Nat.succ_le_succ (h.given _)
    | remove node =>
      obtain rfl := Option.some.inj hnode
      rcases Queue.remove_cases hrun with ⟨-, rfl⟩ | ⟨depth, -, rfl, -⟩
      · exact h.ahead _ hn
      · rcases hn with ⟨d, hd, -⟩ | hpending
        · change Function.update q.lookup node none node = some d at hd
          rw [Function.update_self] at hd
          cases hd
        · exact h.ahead _ (.inr hpending)
    | fail message => cases hnode
  · refine (h.ahead n ?_).trans (hgrows n)
    rcases hn with ⟨d, hd, habove⟩ | hpending
    · exact .inl ⟨d, (lookup_perform hrun hnode).symm.trans hd, habove⟩
    · exact .inr hpending

/-! ## One call of the callback -/

/-- What the requests of one call leave when they raise nothing. -/
structure Answered (q : Queue N D) (cursor : Cursor N D) (node : N) : Prop where
  consistent : Consistent q
  activeDepth : q.activeDepth = some cursor.depth
  activeKey : q.activeKey = some node
  iterating : q.iterating = true
  place : q.depths[cursor.position]? = some cursor.depth
  waiting : ∀ n ∈ cursor.pending, q.lookup n = some cursor.depth

theorem Answered.performAll {cursor : Cursor N D} {node : N} {requests : List (Request N D)}
    (h : Answered q cursor node) (hnode : node ∉ cursor.pending)
    (hcounted : Counted visits credits (Ahead q cursor))
    (horderly : OrderlyAll t cursor.depth requests q) :
    Consistent (performAll t requests q credits).2.1 ∧
      (∀ n, (visits.map Prod.fst).count n ≤ (performAll t requests q credits).2.2 n) ∧
      ((performAll t requests q credits).1 = none →
        Answered (performAll t requests q credits).2.1 cursor node ∧
        Counted visits (performAll t requests q credits).2.2
          (Ahead (performAll t requests q credits).2.1 cursor)) := by
  induction requests generalizing q credits with
  | nil => exact ⟨h.consistent, hcounted.given, fun _ => ⟨h, hcounted⟩⟩
  | cons request rest ih =>
    obtain ⟨horder, hrest⟩ := horderly
    unfold BucketQueue.performAll
    cases hrun : request.perform t q with
    | error message => exact ⟨h.consistent, hcounted.given, fun hnone => by cases hnone⟩
    | ok next =>
      rw [hrun] at hrest
      have hloop := sameLoop_perform hrun
      refine ih ⟨h.consistent.perform hrun, hloop.activeDepth.trans h.activeDepth,
        hloop.activeKey.trans h.activeKey, hloop.iterating.trans h.iterating,
        place_perform h.consistent h.place h.activeDepth horder hrun, fun n hn => ?_⟩
        (hcounted.perform hrun) hrest
      refine perform_kept hrun h.activeDepth h.iterating (h.waiting n hn) ?_
      rw [h.activeKey]
      exact fun hsame => hnode (Option.some.inj hsame ▸ hn)

/-! ## The loop goes on -/

/-- What holds of the system between two steps. -/
structure Invariant (s : System N D) : Prop where
  consistent : Consistent s.queue
  ascending : s.visits.Pairwise fun a b => a.2 ≤ b.2
  given : ∀ n, (s.visits.map Prod.fst).count n ≤ s.credits n
  atCursor : ∀ cursor, s.loop = .running cursor → AtCursor s.queue cursor ∧
    (∀ visit ∈ s.visits, visit.2 ≤ cursor.depth) ∧ Counted s.visits s.credits (Ahead s.queue cursor)

theorem Invariant.not_running {s : System N D} (h : Consistent s.queue)
    (hascending : s.visits.Pairwise fun a b => a.2 ≤ b.2)
    (hgiven : ∀ n, (s.visits.map Prod.fst).count n ≤ s.credits n) {loop : Loop N D}
    (hloop : ∀ cursor, loop ≠ .running cursor) : Invariant (s.stopped loop) where
  consistent := ⟨h.member, h.nodup, h.known, h.listed, h.ascending⟩
  ascending := hascending
  given := hgiven
  atCursor := fun cursor hrunning => absurd hrunning (hloop cursor)

/-- The depths from a position on are those above the one before it. -/
theorem mem_drop_place {depths : List D} (h : depths.Pairwise (· < ·)) {position : Nat} {active d : D}
    (hplace : depths[position]? = some active) (hmem : d ∈ depths) :
    d ∈ depths.drop (position + 1) ↔ active < d := by
  obtain ⟨hposition, rfl⟩ := List.getElem?_eq_some_iff.mp hplace
  have hsplit : depths = depths.take position ++ depths[position] :: depths.drop (position + 1) := by
    rw [List.getElem_cons_drop, List.take_append_drop]
  rw [hsplit] at h hmem
  obtain ⟨-, hrest, hbefore⟩ := List.pairwise_append.mp h
  obtain ⟨hafter, -⟩ := List.pairwise_cons.mp hrest
  constructor
  · exact fun hd => hafter d hd
  · intro habove
    rcases List.mem_append.mp hmem with hearly | hlate
    · exact absurd (hbefore d hearly _ List.mem_cons_self) (not_lt.mpr habove.le)
    · rcases List.mem_cons.mp hlate with rfl | hd
      · exact absurd habove (lt_irrefl _)
      · exact hd

/-- The next bucket is above what was given, and holds the lowest nodes from the position on. -/
theorem Invariant.goOn {s : System N D} (h : Consistent s.queue)
    (hascending : s.visits.Pairwise fun a b => a.2 ≤ b.2)
    (hgiven : ∀ n, (s.visits.map Prod.fst).count n ≤ s.credits n) {position : Nat}
    (hbelow : ∀ visit ∈ s.visits, ∀ d ∈ s.queue.depths.drop position, visit.2 ≤ d)
    (hahead : ∀ n, ∀ d ∈ s.queue.depths.drop position, s.queue.lookup n = some d →
      (s.visits.map Prod.fst).count n + 1 ≤ s.credits n) :
    Invariant (s.goOn position) := by
  unfold System.goOn
  cases hseek : seek s.queue position (s.queue.depths.drop position) with
  | none => exact Invariant.not_running h hascending hgiven fun cursor hloop => by cases hloop
  | some cursor =>
    obtain ⟨skipped, rest, hsplit, hposition, -, hpending, -⟩ := seek_some hseek
    refine ⟨⟨h.member, h.nodup, h.known, h.listed, h.ascending⟩, hascending, hgiven, ?_⟩
    intro other hrunning
    obtain rfl : cursor = other := Loop.running.inj hrunning
    have hmem : cursor.depth ∈ s.queue.depths.drop position := by
      rw [hsplit]
      exact List.mem_append_right skipped List.mem_cons_self
    have hplace : s.queue.depths[cursor.position]? = some cursor.depth := by
      rw [hposition, ← List.getElem?_drop, hsplit, List.getElem?_append_right le_rfl, Nat.sub_self]
      rfl
    have hwaiting : ∀ n ∈ cursor.pending, s.queue.lookup n = some cursor.depth := by
      intro n hn
      rw [hpending] at hn
      exact (h.member n cursor.depth).mp hn
    refine ⟨⟨rfl, rfl, hplace, hpending ▸ h.nodup cursor.depth, hwaiting⟩,
      fun visit hvisit => hbelow visit hvisit _ hmem, hgiven, fun n hn => ?_⟩
    rcases hn with ⟨d, hd, habove⟩ | hn
    · refine hahead n d ?_ hd
      have hlisted := (h.listed d).mp (h.known n d hd)
      have hlater := (mem_drop_place h.ascending hplace hlisted).mpr habove
      rw [hposition, Nat.add_assoc, ← List.drop_drop] at hlater
      exact List.mem_of_mem_drop hlater
    · exact hahead n cursor.depth hmem (hwaiting n hn)

/-- A node queued from the position on is still to be given. -/
theorem goOn_waiting {s : System N D} (h : Consistent s.queue) {position : Nat} {n : N} {d : D}
    (hd : d ∈ s.queue.depths.drop position) (hn : s.queue.lookup n = some d) :
    ∃ cursor, (s.goOn position).loop = .running cursor ∧
      (cursor.depth < d ∨ cursor.depth = d ∧ n ∈ cursor.pending) := by
  have hbucket : n ∈ s.queue.buckets d := (h.member n d).mpr hn
  unfold System.goOn
  cases hseek : seek s.queue position (s.queue.depths.drop position) with
  | none =>
    rw [seek_none hseek d hd] at hbucket
    exact absurd hbucket List.not_mem_nil
  | some cursor =>
    obtain ⟨skipped, rest, hsplit, -, hempty, hpending, -⟩ := seek_some hseek
    refine ⟨cursor, rfl, ?_⟩
    have hsorted : (s.queue.depths.drop position).Pairwise (· < ·) :=
      h.ascending.sublist (List.drop_sublist position _)
    rw [hsplit] at hd hsorted
    rcases List.mem_append.mp hd with hskipped | hlate
    · rw [hempty d hskipped] at hbucket
      exact absurd hbucket List.not_mem_nil
    · rcases List.mem_cons.mp hlate with rfl | hafter
      · exact .inr ⟨rfl, hpending ▸ hbucket⟩
      · exact .inl ((List.pairwise_cons.mp (List.pairwise_append.mp hsorted).2.1).1 d hafter)

theorem Invariant.begin {s : System N D} (h : Consistent s.queue) : Invariant s.begin := by
  refine Invariant.goOn (s := { s with visits := [], credits := _ }) h List.Pairwise.nil (fun n => Nat.zero_le _)
    (fun visit hvisit => absurd hvisit List.not_mem_nil) fun n d _ hn => ?_
  change s.queue.lookup n = some d at hn
  change 0 + 1 ≤ if s.queue.lookup n = none then 0 else 1
  rw [hn, if_neg (Option.some_ne_none d)]

/-- What the requests leave after an orderly call, and where the loop stands then. -/
theorem Invariant.answered {s : System N D} (h : Invariant s) {cursor : Cursor N D}
    (hloop : s.loop = .running cursor) {node : N} (hnode : node ∈ cursor.pending)
    {requests : List (Request N D)}
    (horderly : OrderlyAll t cursor.depth requests { s.queue with activeKey := some node }) :
    Consistent (performAll t requests { s.queue with activeKey := some node } s.credits).2.1 ∧
      (∀ n, ((s.visits ++ [(node, cursor.depth)]).map Prod.fst).count n ≤
        (performAll t requests { s.queue with activeKey := some node } s.credits).2.2 n) ∧
      ((performAll t requests { s.queue with activeKey := some node } s.credits).1 = none →
        Answered (performAll t requests { s.queue with activeKey := some node } s.credits).2.1
          { cursor with pending := cursor.pending.erase node } node ∧
        Counted (s.visits ++ [(node, cursor.depth)])
          (performAll t requests { s.queue with activeKey := some node } s.credits).2.2
          (Ahead (performAll t requests { s.queue with activeKey := some node } s.credits).2.1
            { cursor with pending := cursor.pending.erase node })) := by
  obtain ⟨hat, -, hcounted⟩ := h.atCursor cursor hloop
  have hconsistent : Consistent { s.queue with activeKey := some node } :=
    ⟨h.consistent.member, h.consistent.nodup, h.consistent.known, h.consistent.listed,
      h.consistent.ascending⟩
  have hcalled : Answered { s.queue with activeKey := some node }
      { cursor with pending := cursor.pending.erase node } node :=
    ⟨hconsistent, hat.activeDepth, rfl, hat.iterating, hat.place,
      fun n hn => hat.waiting n (List.mem_of_mem_erase hn)⟩
  have hgone : node ∉ cursor.pending.erase node := hat.nodup.not_mem_erase
  refine hcalled.performAll hgone ⟨fun n => ?_, fun n hn => ?_⟩ horderly
  · rw [List.map_append, List.count_append, List.map_singleton, List.count_singleton]
    split_ifs with hsame
    · have hsame : node = n := by simpa using hsame
      subst hsame
      exact hcounted.ahead node (.inr hnode)
    · exact hcounted.given n
  · rw [List.map_append, List.count_append, List.map_singleton, List.count_singleton]
    have hother : node ≠ n := by
      rintro rfl
      rcases hn with ⟨d, hd, habove⟩ | hpending
      · have hsame := (hat.waiting node hnode).symm.trans hd
        exact absurd (Option.some.inj hsame) habove.ne
      · exact hgone hpending
    rw [if_neg (by simpa using hother)]
    refine hcounted.ahead n ?_
    rcases hn with hlater | hpending
    · exact .inl hlater
    · exact .inr (List.mem_of_mem_erase hpending)

theorem Invariant.visit {s : System N D} (h : Invariant s) {cursor : Cursor N D}
    (hloop : s.loop = .running cursor) {node : N} (hnode : node ∈ cursor.pending)
    {requests : List (Request N D)}
    (horderly : OrderlyAll t cursor.depth requests { s.queue with activeKey := some node }) :
    Invariant (s.visit t cursor node requests) := by
  obtain ⟨hconsistent, hgiven, hanswered⟩ := h.answered hloop hnode horderly
  obtain ⟨-, hbelow, -⟩ := h.atCursor cursor hloop
  have hbelow' : ∀ visit ∈ s.visits ++ [(node, cursor.depth)], visit.2 ≤ cursor.depth := by
    intro visit hvisit
    rcases List.mem_append.mp hvisit with hbefore | hnew
    · exact hbelow visit hbefore
    · rw [List.mem_singleton.mp hnew]
  have hascending : (s.visits ++ [(node, cursor.depth)]).Pairwise fun a b => a.2 ≤ b.2 := by
    refine List.pairwise_append.mpr ⟨h.ascending, List.pairwise_singleton _ _, ?_⟩
    intro visit hvisit other hother
    rw [List.mem_singleton.mp hother]
    exact hbelow visit hvisit
  unfold System.visit
  dsimp only
  cases hraised : (performAll t requests { s.queue with activeKey := some node } s.credits).1 with
  | some message => exact Invariant.not_running hconsistent hascending hgiven fun cursor hloop => by cases hloop
  | none =>
    obtain ⟨hafter, hcounted⟩ := hanswered hraised
    dsimp only
    split_ifs with hlast
    · refine Invariant.goOn hconsistent hascending hgiven ?_ ?_
      · intro visit hvisit d hd
        have habove := (mem_drop_place hconsistent.ascending hafter.place (List.mem_of_mem_drop hd)).mp hd
        exact (hbelow' visit hvisit).trans habove.le
      · intro n d hd hn
        have habove := (mem_drop_place hconsistent.ascending hafter.place (List.mem_of_mem_drop hd)).mp hd
        exact hcounted.ahead n (.inl ⟨d, hn, habove⟩)
    · refine ⟨⟨hconsistent.member, hconsistent.nodup, hconsistent.known, hconsistent.listed,
        hconsistent.ascending⟩, hascending, hgiven, ?_⟩
      intro other hrunning
      obtain rfl := Loop.running.inj hrunning
      obtain ⟨hat, -, -⟩ := h.atCursor cursor hloop
      exact ⟨⟨rfl, rfl, hafter.place, hat.nodup.erase node, hafter.waiting⟩, hbelow', hcounted⟩

/-! ## Whole runs -/

theorem Consistent.flags (h : Consistent q) (activeDepth : Option D) (activeKey : Option N)
    (iterating : Bool) : Consistent { q with activeDepth, activeKey, iterating } :=
  ⟨h.member, h.nodup, h.known, h.listed, h.ascending⟩

theorem Consistent.performAll (h : Consistent q) (requests : List (Request N D)) (credits : N → Nat) :
    Consistent (performAll t requests q credits).2.1 := by
  induction requests generalizing q credits with
  | nil => exact h
  | cons request rest ih =>
    unfold BucketQueue.performAll
    cases hrun : request.perform t q with
    | error message => exact h
    | ok next => exact ih (h.perform hrun) _

theorem Consistent.goOn {s : System N D} (h : Consistent s.queue) (position : Nat) :
    Consistent (s.goOn position).queue := by
  unfold System.goOn
  split
  · exact h.flags none none false
  · exact h.flags _ none true

theorem Consistent.visit {s : System N D} (h : Consistent s.queue) (cursor : Cursor N D) (node : N)
    (requests : List (Request N D)) : Consistent (s.visit t cursor node requests).queue := by
  have hafter := (h.flags s.queue.activeDepth (some node) s.queue.iterating).performAll (t := t)
    requests s.credits
  unfold System.visit
  dsimp only
  split
  · exact hafter.flags none none false
  · split_ifs
    · exact Consistent.goOn (s := ⟨_, _, _, _⟩) hafter (cursor.position + 1)
    · exact hafter.flags (some cursor.depth) none true

/-- Outside a loop the queue is used directly. -/
def Idle (s : System N D) : Prop := ∀ cursor, s.loop ≠ .running cursor

theorem step_idle {s : System N D} (h : Idle s) (action : Action N D) :
    step t s action = s.use t action := by
  obtain ⟨queue, loop, visits, credits⟩ := s
  cases loop with
  | running cursor => exact absurd rfl (h cursor)
  | idle => rfl
  | returned => rfl
  | raised message => rfl

theorem step_running {s : System N D} {cursor : Cursor N D} (h : s.loop = .running cursor)
    (action : Action N D) : step t s action = s ∨
      ∃ node requests, action = .visit node requests ∧ node ∈ cursor.pending ∧
        step t s action = s.visit t cursor node requests := by
  obtain ⟨queue, loop, visits, credits⟩ := s
  subst h
  cases action with
  | visit node requests =>
    by_cases hnode : node ∈ cursor.pending
    · exact .inr ⟨node, requests, rfl, hnode, if_pos hnode⟩
    · exact .inl (if_neg hnode)
  | request request => exact .inl rfl
  | ensureDepth depth => exact .inl rfl
  | clear => exact .inl rfl
  | iterate => exact .inl rfl

theorem idle_or_running (s : System N D) : Idle s ∨ ∃ cursor, s.loop = .running cursor := by
  cases hloop : s.loop with
  | running cursor => exact .inr ⟨cursor, rfl⟩
  | idle => exact .inl fun cursor h => nomatch hloop.symm.trans h
  | returned => exact .inl fun cursor h => nomatch hloop.symm.trans h
  | raised message => exact .inl fun cursor h => nomatch hloop.symm.trans h

theorem Consistent.use {s : System N D} (h : Consistent s.queue) (action : Action N D) :
    Consistent (s.use t action).queue := by
  cases action with
  | request request =>
    change Consistent ((request.perform t s.queue).toOption.getD s.queue)
    cases hrun : request.perform t s.queue with
    | error message => exact h
    | ok q => exact h.perform hrun
  | ensureDepth depth => exact h.ensureDepth depth
  | clear => exact Consistent.clear s.queue
  | iterate => exact Consistent.goOn (s := { s with visits := [], credits := _ }) h 0
  | visit node requests => exact h

theorem Consistent.step {s : System N D} (h : Consistent s.queue) (action : Action N D) :
    Consistent (step t s action).queue := by
  rcases idle_or_running s with hidle | ⟨cursor, hloop⟩
  · rw [step_idle hidle]
    exact h.use action
  · rcases step_running (t := t) hloop action with hsame | ⟨node, requests, -, -, hstep⟩
    · rwa [hsame]
    · rw [hstep]
      exact h.visit cursor node requests

theorem Invariant.step {s : System N D} (h : Invariant s) {action : Action N D}
    (horderly : Orderly t s action) : Invariant (step t s action) := by
  rcases idle_or_running s with hidle | ⟨cursor, hloop⟩
  · have hnext := h.consistent.use (t := t) action
    have hsame : ∀ q, Consistent q → Invariant { s with queue := q } := fun q hq =>
      ⟨hq, h.ascending, h.given, fun cursor hrunning => absurd hrunning (hidle cursor)⟩
    rw [step_idle hidle]
    cases action with
    | request request => exact hsame _ hnext
    | ensureDepth depth => exact hsame _ hnext
    | clear => exact hsame _ hnext
    | iterate => exact Invariant.begin h.consistent
    | visit node requests => exact h
  · rcases step_running (t := t) hloop action with hsame | ⟨node, requests, rfl, hnode, hstep⟩
    · rwa [hsame]
    · rw [hstep]
      refine h.visit hloop hnode ?_
      unfold Orderly at horderly
      rwa [hloop] at horderly

/-- The node is queued at the depth, and a running loop has still to give it there. -/
def Waits (s : System N D) (n : N) (d : D) : Prop :=
  s.queue.lookup n = some d ∧ ∃ cursor, s.loop = .running cursor ∧
    (cursor.depth < d ∨ cursor.depth = d ∧ n ∈ cursor.pending)

/-- The loop has gone over the depth, or returned. -/
def Passed (s : System N D) (n : N) (d : D) : Prop :=
  match s.loop with
  | .running cursor => d < cursor.depth ∨ d = cursor.depth ∧ n ∉ cursor.pending
  | .returned => True
  | _ => False

def Action.isVisit : Action N D → Bool
  | .visit _ _ => true
  | _ => false

theorem Waits.visit {s : System N D} (h : Invariant s) {n : N} {d : D} (hwaits : Waits s n d)
    {cursor : Cursor N D} (hloop : s.loop = .running cursor) {node : N} (hnode : node ∈ cursor.pending)
    {requests : List (Request N D)}
    (horderly : OrderlyAll t cursor.depth requests { s.queue with activeKey := some node })
    (hstays : (s.visit t cursor node requests).queue.lookup n = some d) :
    Waits (s.visit t cursor node requests) n d ∨ (n, d) ∈ (s.visit t cursor node requests).visits ∨
      ∃ message, (s.visit t cursor node requests).loop = .raised message := by
  obtain ⟨hconsistent, -, hanswered⟩ := h.answered hloop hnode horderly
  obtain ⟨-, other, hother, hplace⟩ := hwaits
  obtain rfl : cursor = other := Loop.running.inj (hloop.symm.trans hother)
  unfold System.visit at hstays ⊢
  dsimp only at hstays ⊢
  cases hraised : (BucketQueue.performAll t requests { s.queue with activeKey := some node }
      s.credits).1 with
  | some message => exact .inr (.inr ⟨message, rfl⟩)
  | none =>
    obtain ⟨hafter, -⟩ := hanswered hraised
    rw [hraised] at hstays
    dsimp only at hstays ⊢
    by_cases hgiven : n = node ∧ cursor.depth = d
    · obtain ⟨rfl, rfl⟩ := hgiven
      refine .inr (.inl ?_)
      split_ifs
      · unfold System.goOn
        split <;> exact List.mem_append_right _ List.mem_cons_self
      · exact List.mem_append_right _ List.mem_cons_self
    · left
      have hkept : cursor.depth < d ∨ cursor.depth = d ∧ n ∈ cursor.pending.erase node := by
        rcases hplace with habove | ⟨hd, hn⟩
        · exact .inl habove
        · exact .inr ⟨hd, (List.mem_erase_of_ne fun hsame => hgiven ⟨hsame, hd⟩).mpr hn⟩
      split_ifs at hstays ⊢ with hlast
      · have habove : cursor.depth < d := by
          rcases hkept with habove | ⟨-, hn⟩
          · exact habove
          · rw [hlast] at hn
            exact absurd hn List.not_mem_nil
        have hqueued : (BucketQueue.performAll t requests { s.queue with activeKey := some node }
            s.credits).2.1.lookup n = some d := by
          unfold System.goOn at hstays
          split at hstays <;> exact hstays
        have hlisted := (hconsistent.listed d).mp (hconsistent.known n d hqueued)
        obtain ⟨next, hnext, hwaiting⟩ := goOn_waiting (s := ⟨_, s.loop, _, _⟩) hconsistent
          ((mem_drop_place hconsistent.ascending hafter.place hlisted).mpr habove) hqueued
        refine ⟨hstays, next, ?_, hwaiting⟩
        exact hnext
      · exact ⟨hstays, _, rfl, hkept⟩

theorem Waits.not_passed {s : System N D} {n : N} {d : D} (h : Waits s n d) : ¬ Passed s n d := by
  obtain ⟨-, cursor, hloop, hplace⟩ := h
  unfold Passed
  rw [hloop]
  rintro (hbelow | ⟨rfl, hn⟩)
  · rcases hplace with habove | ⟨hsame, -⟩
    · exact absurd hbelow (not_lt.mpr habove.le)
    · exact absurd hsame hbelow.ne'
  · rcases hplace with habove | ⟨-, hwaiting⟩
    · exact absurd habove (lt_irrefl _)
    · exact hn hwaiting

theorem visits_step {s : System N D} {action : Action N D} (hvisit : action.isVisit = true) :
    s.visits ⊆ (step t s action).visits := by
  rcases idle_or_running s with hidle | ⟨cursor, hloop⟩
  · rw [step_idle hidle]
    cases action with
    | visit node requests => exact fun _ h => h
    | request request => cases hvisit
    | ensureDepth depth => cases hvisit
    | clear => cases hvisit
    | iterate => cases hvisit
  · rcases step_running (t := t) hloop action with hsame | ⟨node, requests, -, -, hstep⟩
    · rw [hsame]
      exact fun _ h => h
    · rw [hstep]
      have hgrown : ∀ visit ∈ s.visits, visit ∈ s.visits ++ [(node, cursor.depth)] :=
        fun visit h => List.mem_append_left _ h
      unfold System.visit
      dsimp only
      split
      · exact hgrown
      · split_ifs
        · unfold System.goOn
          split <;> exact hgrown
        · exact hgrown

/-- A node that stays queued waits until it is given, unless the callback raises. -/
theorem waits_run {s : System N D} (h : Invariant s) {n : N} {d : D}
    (hn : Waits s n d ∨ (n, d) ∈ s.visits ∨ ∃ message, s.loop = .raised message)
    {actions : List (Action N D)} (hvisits : ∀ action ∈ actions, action.isVisit = true)
    (horderly : Along (step t) (Orderly t) s actions)
    (hstays : Along (step t) (fun s action => (step t s action).queue.lookup n = some d) s actions) :
    Waits (actions.foldl (step t) s) n d ∨ (n, d) ∈ (actions.foldl (step t) s).visits ∨
      ∃ message, (actions.foldl (step t) s).loop = .raised message := by
  induction actions generalizing s with
  | nil => exact hn
  | cons action actions ih =>
    have hvisit := hvisits action List.mem_cons_self
    refine ih (h.step horderly.1) ?_ (fun other hother =>
      hvisits other (List.mem_cons_of_mem action hother)) horderly.2 hstays.2
    rcases hn with hwaits | hgiven | ⟨message, hraised⟩
    · obtain ⟨-, cursor, hloop, -⟩ := id hwaits
      rcases step_running (t := t) hloop action with hsame | ⟨node, requests, rfl, hnode, hstep⟩
      · rw [hsame]
        exact .inl hwaits
      · have hlookup : (step t s (.visit node requests)).queue.lookup n = some d := hstays.1
        have horder := horderly.1
        unfold Orderly at horder
        rw [hloop] at horder
        rw [hstep] at hlookup ⊢
        exact hwaits.visit h hloop hnode horder hlookup
    · exact .inr (.inl (visits_step hvisit hgiven))
    · have hidle : Idle s := fun cursor hrunning => nomatch hraised.symm.trans hrunning
      refine .inr (.inr ⟨message, ?_⟩)
      rw [step_idle hidle]
      cases action with
      | visit node requests => exact hraised
      | request request => cases hvisit
      | ensureDepth depth => cases hvisit
      | clear => cases hvisit
      | iterate => cases hvisit

/-- What iterating owes to its callers, at the end of a run. -/
structure InOrder (t : Texts N D) (start : System N D) (actions : List (Action N D)) : Prop where
  /-- The depths do not go down, and no node is given more often than it was enqueued. -/
  ascending : (actions.foldl (step t) start).visits.Pairwise fun a b => a.2 ≤ b.2
  given : ∀ n, ((actions.foldl (step t) start).visits.map Prod.fst).count n ≤
    (actions.foldl (step t) start).credits n
  /-- When a loop begins every queued node waits for it. -/
  begun : ∀ before n d, actions = before ++ [.iterate] → Idle (before.foldl (step t) start) →
    (before.foldl (step t) start).queue.lookup n = some d →
      Waits (actions.foldl (step t) start) n d
  /-- A waiting node that stays queued has been given when the loop has passed its depth. -/
  waiting : ∀ before after n d, actions = before ++ after →
    (∀ action ∈ after, action.isVisit = true) → Waits (before.foldl (step t) start) n d →
    Along (step t) (fun s action => (step t s action).queue.lookup n = some d)
      (before.foldl (step t) start) after →
    Passed (actions.foldl (step t) start) n d → (n, d) ∈ (actions.foldl (step t) start).visits

theorem fresh_invariant (label : Option String) : Invariant (System.fresh label : System N D) where
  consistent := Consistent.clear (Queue.fresh label)
  ascending := List.Pairwise.nil
  given := fun _ => Nat.zero_le _
  atCursor := fun _ hrunning => nomatch hrunning

/-- Buckets and lookup agree in every run, and in the runs whose callbacks register no depth below
the active one the loop gives every node in order. -/
theorem visits_in_order (t : Texts N D) (label : Option String) (actions : List (Action N D)) :
    (∀ n d, n ∈ (actions.foldl (step t) (.fresh label)).queue.buckets d ↔
      (actions.foldl (step t) (.fresh label)).queue.lookup n = some d) ∧
    (Along (step t) (Orderly t) (.fresh label) actions → InOrder t (.fresh label) actions) := by
  constructor
  · have hconsistent : Consistent (actions.foldl (step t) (.fresh label)).queue :=
      invariant_foldl (I := fun s : System N D => Consistent s.queue)
        (fun s action h => h.step action) (fresh_invariant label).consistent actions
    exact hconsistent.member
  · intro horderly
    have hend := Along.invariant (I := Invariant) (fun s action h ho => h.step ho)
      (fresh_invariant label) horderly
    refine ⟨hend.ascending, hend.given, ?_, ?_⟩
    · rintro before n d rfl hidle hn
      obtain ⟨hbefore, -⟩ := Along.append.mp horderly
      have hmid := Along.invariant (I := Invariant) (fun s action h ho => h.step ho)
        (fresh_invariant label) hbefore
      rw [List.foldl_append, List.foldl_cons, List.foldl_nil, step_idle hidle]
      generalize before.foldl (step t) (.fresh label) = s at hidle hn hmid ⊢
      have hlisted : d ∈ s.queue.depths.drop 0 :=
        (hmid.consistent.listed d).mp (hmid.consistent.known n d hn)
      obtain ⟨cursor, hloop, hplace⟩ :=
        goOn_waiting (s := { s with visits := [], credits := _ }) hmid.consistent hlisted hn
      refine ⟨?_, cursor, hloop, hplace⟩
      change (s.begin).queue.lookup n = some d
      unfold System.begin System.goOn
      split <;> exact hn
    · rintro before after n d rfl hvisits hwaits hstays hpassed
      obtain ⟨hbefore, hafter⟩ := Along.append.mp horderly
      have hmid := Along.invariant (I := Invariant) (fun s action h ho => h.step ho)
        (fresh_invariant label) hbefore
      have hrun := waits_run hmid (.inl hwaits) hvisits hafter hstays
      rw [List.foldl_append] at hpassed ⊢
      rcases hrun with hstill | hgiven | ⟨message, hraised⟩
      · exact absurd hpassed hstill.not_passed
      · exact hgiven
      · unfold Passed at hpassed
        rw [hraised] at hpassed
        exact hpassed.elim

/-- Nodes and depths that are numbers. -/
def numbers : Texts Nat Nat := ⟨fun n => toString n, fun d => toString d⟩

theorem visits_in_order_deeper :
    InOrder numbers (.fresh none) [.request (.enqueue 1 (some 2)), .request (.enqueue 2 (some 5)),
      .iterate, .visit 1 [.enqueue 3 (some 7), .remove 2], .visit 3 []] :=
  (visits_in_order numbers none [.request (.enqueue 1 (some 2)), .request (.enqueue 2 (some 5)),
    .iterate, .visit 1 [.enqueue 3 (some 7), .remove 2], .visit 3 []]).2 (by decide)

/-- A new depth below the active one makes the loop come back to the active bucket. -/
theorem not_visits_in_order :
    ¬ ∀ (t : Texts Nat Nat) (label : Option String) (actions : List (Action Nat Nat)),
        InOrder t (.fresh label) actions := by
  intro hclaim
  have hgiven := (hclaim numbers none [.request (.enqueue 1 (some 5)), .iterate,
    .visit 1 [.enqueue 2 (some 3)], .visit 1 []]).given 1
  exact absurd hgiven (by decide)

end Space2.BucketQueue
