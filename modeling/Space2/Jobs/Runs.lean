import Space2.Base.Runs
import Space2.Jobs.JobSystem

/-!
# Each job has one result

The jobs of a run are found once each: in a call of `submit`, in the queue, at a
worker, among the results to be polled, or in what one poll returned.
-/
namespace Space2.Jobs

open Space2.Base

variable {H : Type} {s : State H} {α : Type}

/-! ## What a poll takes -/

theorem collect_taken (taken? : α → Bool) (room : Nat) (l : List α) :
    (collect taken? room l).1 = (l.filter taken?).take room := by
  fun_induction collect taken? room l with
  | case1 => simp
  | case2 => simp
  | case3 room a rest htaken taken left hrest ih =>
    simp only [hrest] at ih
    simp [htaken, ih]
  | case4 room a rest htaken taken left hrest ih =>
    simp only [hrest] at ih
    simp [htaken, ih]

theorem collect_perm (taken? : α → Bool) (room : Nat) (l : List α) :
    ((collect taken? room l).1 ++ (collect taken? room l).2).Perm l := by
  fun_induction collect taken? room l with
  | case1 => exact .refl _
  | case2 => exact .refl _
  | case3 room a rest htaken taken left hrest ih =>
    simp only [hrest] at ih
    exact ih.cons a
  | case4 room a rest htaken taken left hrest ih =>
    simp only [hrest] at ih
    exact List.perm_middle.trans (ih.cons a)

theorem collect_left (taken? : α → Bool) (room : Nat) (l : List α) :
    (collect taken? room l).2.Sublist l := by
  fun_induction collect taken? room l with
  | case1 => exact .refl _
  | case2 => exact .refl _
  | case3 room a rest htaken taken left hrest ih =>
    simp only [hrest] at ih
    exact ih.cons a
  | case4 room a rest htaken taken left hrest ih =>
    simp only [hrest] at ih
    exact ih.cons_cons a

/-- The first ones up to a limit, where no limit is written as zero. -/
def oldest (limit : Nat) (l : List α) : List α := if limit = 0 then l else l.take limit

theorem take_oldest {limit length : Nat} {l : List α} (h : l.length ≤ length) :
    l.take (if limit = 0 then length else limit) = oldest limit l := by
  unfold oldest
  split_ifs with hlimit
  · exact List.take_of_length_le h
  · rfl

/-- What a poll has taken and left of the results that were waiting. -/
structure Oldest (which : Poll) (waiting taken left : Results) : Prop where
  first : taken = oldest which.maxResults (waiting.filter fun result => which.asks result.value)
  split : (taken ++ left).Perm waiting
  kept : left.Sublist waiting

theorem poll_oldest (maxResults : Nat) (waiting : Results) :
    Oldest (.all maxResults) waiting (poll maxResults waiting).1 (poll maxResults waiting).2 := by
  have hall : (waiting.filter fun result => (Poll.all maxResults).asks result.value) = waiting := by
    apply List.filter_eq_self.mpr
    intro result _
    rfl
  unfold poll
  split_ifs with hempty hlimit
  · rw [List.isEmpty_iff] at hempty
    subst hempty
    exact ⟨by simp [oldest], .refl _, .refl _⟩
  · refine ⟨?_, by simp, List.nil_sublist _⟩
    rw [hall, oldest, Poll.maxResults]
    rcases hlimit with hzero | hlong
    · rw [if_pos hzero]
    · rw [List.take_of_length_le hlong, ite_self]
  · refine ⟨?_, by simp, List.drop_sublist _ _⟩
    rw [hall, oldest, Poll.maxResults, if_neg (fun hzero => hlimit (.inl hzero))]

theorem pollMatching_oldest (matching : JobResult → Bool) (which : Poll)
    (hasks : which.asks = matching) (waiting : Results) :
    Oldest which waiting (pollMatching matching which.maxResults waiting).1
      (pollMatching matching which.maxResults waiting).2 := by
  unfold pollMatching
  by_cases hempty : waiting.isEmpty = true
  · rw [if_pos hempty]
    rw [List.isEmpty_iff] at hempty
    subst hempty
    exact ⟨by simp [oldest], .refl _, .refl _⟩
  · rw [if_neg hempty]
    refine ⟨?_, collect_perm _ _ _, collect_left _ _ _⟩
    rw [collect_taken, hasks]
    apply take_oldest
    exact List.length_filter_le _ _

theorem Poll.run_oldest (which : Poll) (waiting : Results) :
    Oldest which waiting (which.run waiting).1 (which.run waiting).2 := by
  cases which with
  | all maxResults => exact poll_oldest maxResults waiting
  | kind wanted maxResults => exact pollMatching_oldest _ (.kind wanted maxResults) rfl waiting
  | owner wanted maxResults => exact pollMatching_oldest _ (.owner wanted maxResults) rfl waiting
  | kindOwner wanted submitter maxResults =>
    exact pollMatching_oldest _ (.kindOwner wanted submitter maxResults) rfl waiting

/-! ## Where the jobs are -/

def Worker.request : Worker H → Option (Numbered JobRequest)
  | .popped request | .found request _ => some request
  | _ => none

def Worker.result : Worker H → Option (Numbered JobResult)
  | .ran result => some result
  | _ => none

namespace State

/-- The requests that have no result yet. -/
def requests (s : State H) : List (Numbered JobRequest) :=
  s.submitting.map Submission.request ++ s.jobQueue ++ s.workers.filterMap Worker.request

def delivered (s : State H) : Results := s.polled.flatten

def results (s : State H) : Results :=
  s.workers.filterMap Worker.result ++ s.completed ++ s.delivered

/-- The job of every call of `submit`, every place of the queue, every worker, and every result. -/
def numbers (s : State H) : List Nat :=
  s.requests.map Numbered.number ++ s.results.map Numbered.number

/-- The result has the id, the kind and the owner of its job. -/
def Carried (s : State H) (result : Numbered JobResult) : Prop :=
  ∃ job, s.jobs[result.number]? = some job ∧ result.value.id = job.id ∧
    result.value.kind = job.kind ∧ result.value.owner = job.owner

/-- Each job is found once, and the results have what belongs to their jobs. -/
structure OneResultEach (s : State H) : Prop where
  once : s.numbers.Perm (List.range s.jobs.length)
  asked : ∀ request ∈ s.requests, s.jobs[request.number]? = some request.value
  carried : ∀ result ∈ s.results, s.Carried result
  /-- The results wait in the order of their completion. -/
  ordered : (s.completed.map Numbered.number).Sublist s.finished
  finished : (s.finished).Perm ((s.completed ++ s.delivered).map Numbered.number)

end State

/-- The request that a worker is about to run a handler with. -/
def State.running (s : State H) (i : Nat) : Option (Numbered JobRequest) :=
  match s.workers[i]? with
  | some (.found request (some _)) => some request
  | _ => none

def kindKept (s : State H) : Action H → Bool
  | .runHandler i (.returned record) =>
    (s.running i).all fun request => decide (record.kind = request.value.kind)
  | _ => true

/-- The record of a handler that returns has the kind of its request. -/
def KindKept (s : State H) (action : Action H) : Prop := kindKept s action = true

instance (action : Action H) : Decidable (KindKept s action) :=
  inferInstanceAs (Decidable (kindKept s action = true))

/-- A poll returns the oldest results it asks for, and only a poll returns any. -/
def Answered (s : State H) : Action H → Prop
  | .poll which => ∃ taken, (step s (.poll which)).polled = s.polled ++ [taken] ∧
      Oldest which s.completed taken (step s (.poll which)).completed
  | action => (step s action).polled = s.polled

/-! ## Steps that move a job -/

namespace State

/-- Jobs and results that only move from one thread to another. -/
theorem OneResultEach.moved {s' : State H} (h : s.OneResultEach) (hjobs : s'.jobs = s.jobs)
    (hrequests : s'.requests.Perm s.requests) (hresults : s'.results.Perm s.results)
    (hordered : (s'.completed.map Numbered.number).Sublist s'.finished)
    (hfinished : s'.finished.Perm ((s'.completed ++ s'.delivered).map Numbered.number)) :
    s'.OneResultEach where
  once := by
    have hnumbers := (hrequests.map Numbered.number).append (hresults.map Numbered.number)
    rw [hjobs]
    exact hnumbers.trans h.once
  asked := by
    intro request hrequest
    rw [hjobs]
    exact h.asked request (hrequests.mem_iff.mp hrequest)
  carried := by
    intro result hresult
    unfold Carried
    rw [hjobs]
    exact h.carried result (hresults.mem_iff.mp hresult)
  ordered := hordered
  finished := hfinished

/-- A request that gets its result. -/
theorem OneResultEach.answered {s' : State H} (h : s.OneResultEach) (request : Numbered JobRequest)
    (result : JobResult) (hjobs : s'.jobs = s.jobs)
    (hrequests : (request :: s'.requests).Perm s.requests)
    (hresults : s'.results.Perm (⟨request.number, result⟩ :: s.results))
    (hid : result.id = request.value.id) (hkind : result.kind = request.value.kind)
    (howner : result.owner = request.value.owner)
    (hordered : (s'.completed.map Numbered.number).Sublist s'.finished)
    (hfinished : s'.finished.Perm ((s'.completed ++ s'.delivered).map Numbered.number)) :
    s'.OneResultEach where
  once := by
    rw [hjobs]
    refine List.Perm.trans ?_ h.once
    have hrest := (hrequests.map Numbered.number).append_right (s.results.map Numbered.number)
    refine List.Perm.trans ?_ hrest
    rw [numbers]
    refine ((hresults.map Numbered.number).append_left _).trans ?_
    exact List.perm_middle
  asked := by
    intro other hother
    rw [hjobs]
    exact h.asked other (hrequests.mem_iff.mp (List.mem_cons_of_mem _ hother))
  carried := by
    intro other hother
    unfold Carried
    rw [hjobs]
    rcases List.mem_cons.mp (hresults.mem_iff.mp hother) with rfl | hbefore
    · exact ⟨request.value, h.asked request (hrequests.mem_iff.mp List.mem_cons_self), hid,
        hkind, howner⟩
    · exact h.carried other hbefore
  ordered := hordered
  finished := hfinished

/-! ## The places of a list that a thread works on -/

theorem perm_erased {l : List α} {i : Nat} {a : α} (h : l[i]? = some a) :
    l.Perm (a :: l.eraseIdx i) := by
  obtain ⟨hi, rfl⟩ := List.getElem?_eq_some_iff.mp h
  exact (List.getElem_cons_eraseIdx_perm hi).symm

theorem perm_set {l : List α} {i : Nat} {a : α} (h : l[i]? = some a) (b : α) :
    (l.set i b).Perm (b :: l.eraseIdx i) := by
  obtain ⟨hi, -⟩ := List.getElem?_eq_some_iff.mp h
  exact List.set_perm_cons_eraseIdx hi b

variable {β : Type} [DecidableEq β]

theorem count_filterMap_of_perm {l others : List α} {a : α} (h : l.Perm (a :: others))
    (f : α → Option β) (b : β) :
    (l.filterMap f).count b = (f a).toList.count b + (others.filterMap f).count b := by
  rw [(h.filterMap f).count_eq b]
  cases hf : f a with
  | none => simp [hf]
  | some c => simp [hf, List.count_cons, Nat.add_comm]

theorem count_map_of_perm {l others : List α} {a : α} (h : l.Perm (a :: others)) (f : α → β)
    (b : β) : (l.map f).count b = [f a].count b + (others.map f).count b := by
  rw [(h.map f).count_eq b]
  simp [List.count_cons, Nat.add_comm]

/-! ## Each step -/

/-- A result that is pushed is the last to be completed. -/
theorem push_ordered (result : Numbered JobResult)
    (hordered : (s.completed.map Numbered.number).Sublist s.finished)
    (hfinished : s.finished.Perm ((s.completed ++ s.delivered).map Numbered.number)) :
    ((s.push result).completed.map Numbered.number).Sublist (s.push result).finished ∧
      (s.push result).finished.Perm
        (((s.push result).completed ++ (s.push result).delivered).map Numbered.number) := by
  constructor
  · simp only [State.push, List.map_append, List.map_cons, List.map_nil]
    exact hordered.append (.refl _)
  · rw [List.perm_iff_count] at hfinished ⊢
    intro a
    have hbefore := hfinished a
    simp only [State.push, State.delivered, List.map_append, List.count_append, List.map_cons,
      List.map_nil] at hbefore ⊢
    omega

theorem OneResultEach.submit (h : s.OneResultEach) (kind payload : String) (owner : JobOwner) :
    (s.submit kind payload owner).OneResultEach where
  once := by
    have hcount := List.perm_iff_count.mp h.once
    rw [List.perm_iff_count]
    intro a
    have hbefore := hcount a
    simp only [State.submit, numbers, requests, results, delivered, List.map_append,
      List.count_append, List.map_cons, List.map_nil, List.length_append, List.length_cons,
      List.length_nil, List.range_succ] at hbefore ⊢
    omega
  asked := by
    intro request hrequest
    have hcases : request ∈ s.requests ∨ request = ⟨s.jobs.length, ⟨s.nextId, kind, payload, owner⟩⟩ := by
      simp only [State.submit, requests, List.map_append, List.mem_append, List.map_cons,
        List.map_nil, List.mem_singleton] at hrequest ⊢
      tauto
    rcases hcases with hbefore | rfl
    · have hjob := h.asked request hbefore
      obtain ⟨hlength, -⟩ := List.getElem?_eq_some_iff.mp hjob
      simpa only [State.submit, List.getElem?_append_left hlength] using hjob
    · simp [State.submit]
  carried := by
    intro result hresult
    obtain ⟨job, hjob, hcarried⟩ := h.carried result hresult
    obtain ⟨hlength, -⟩ := List.getElem?_eq_some_iff.mp hjob
    refine ⟨job, ?_, hcarried⟩
    simpa only [State.submit, List.getElem?_append_left hlength] using hjob
  ordered := h.ordered
  finished := h.finished

theorem OneResultEach.lookUp (h : s.OneResultEach) (i : Nat) : (s.lookUp i).OneResultEach := by
  unfold State.lookUp
  split
  · rename_i request hi
    have herased := perm_erased hi
    split_ifs with hnone
    · let taken : State H := { s with submitting := s.submitting.eraseIdx i }
      let result : Numbered JobResult := ⟨request.number, request.value.immediate⟩
      have hpushed := push_ordered (s := taken) result h.ordered h.finished
      have hjobs : (taken.push result).jobs = s.jobs := rfl
      refine h.answered request request.value.immediate hjobs ?_ ?_ rfl rfl rfl hpushed.1 hpushed.2
      · rw [List.perm_iff_count]
        intro a
        have hcount := count_map_of_perm herased Submission.request a
        simp only [taken, State.push, requests, List.count_append, List.count_cons,
          List.count_nil] at hcount ⊢
        omega
      · rw [List.perm_iff_count]
        intro a
        simp only [taken, result, State.push, results, delivered, List.count_append,
          List.count_cons, List.count_nil]
        omega
    · refine h.moved rfl ?_ (.refl _) h.ordered h.finished
      rw [List.perm_iff_count]
      intro a
      have hcount := count_map_of_perm herased Submission.request a
      have hset := count_map_of_perm (perm_set hi ⟨request, true⟩) Submission.request a
      simp only [requests, List.count_append] at hcount hset ⊢
      omega
  · exact h

theorem OneResultEach.enqueue (h : s.OneResultEach) (i : Nat) : (s.enqueue i).OneResultEach := by
  unfold State.enqueue
  split
  · rename_i request hi
    refine h.moved rfl ?_ (.refl _) h.ordered h.finished
    rw [List.perm_iff_count]
    intro a
    have hcount := count_map_of_perm (perm_erased hi) Submission.request a
    simp only [requests, List.count_append] at hcount ⊢
    omega
  · exact h

/-- A worker that goes on with the requests and the results it had, but for those that its
loop takes from a queue or puts into one. -/
theorem count_worker {i : Nat} {before : Worker H} (hi : s.workers[i]? = some before)
    (after : Worker H) (request : Numbered JobRequest) (result : Numbered JobResult) :
    ((s.workers.set i after).filterMap Worker.request).count request +
        before.request.toList.count request =
      (s.workers.filterMap Worker.request).count request + after.request.toList.count request ∧
    ((s.workers.set i after).filterMap Worker.result).count result +
        before.result.toList.count result =
      (s.workers.filterMap Worker.result).count result + after.result.toList.count result := by
  have hbefore := perm_erased hi
  have hafter := perm_set hi after
  rw [count_filterMap_of_perm hbefore, count_filterMap_of_perm hafter,
    count_filterMap_of_perm hbefore, count_filterMap_of_perm hafter]
  omega

theorem OneResultEach.popJob (h : s.OneResultEach) (i : Nat) : (s.popJob i).OneResultEach := by
  unfold State.popJob
  split
  · rename_i request rest hi hqueue
    have hcount := count_worker hi (.popped request)
    refine h.moved rfl ?_ ?_ h.ordered h.finished
    · rw [List.perm_iff_count]
      intro a
      have hworker := (hcount a ⟨0, .blank⟩).1
      simp only [requests, hqueue, List.count_append, List.count_cons, Worker.request,
        Option.toList_none, Option.toList_some, List.count_nil] at hworker ⊢
      omega
    · rw [List.perm_iff_count]
      intro a
      have hworker := (hcount request a).2
      simp only [results, delivered, List.count_append, Worker.result,
        Option.toList_none, List.count_nil] at hworker ⊢
      omega
  · exact h

theorem OneResultEach.copyHandler (h : s.OneResultEach) (i : Nat) :
    (s.copyHandler i).OneResultEach := by
  unfold State.copyHandler
  split
  · rename_i request hi
    have hcount := count_worker hi (.found request (s.findHandler request.value.kind))
    refine h.moved rfl ?_ ?_ h.ordered h.finished
    · rw [List.perm_iff_count]
      intro a
      have hworker := (hcount a ⟨0, .blank⟩).1
      simp only [requests, List.count_append, Worker.request] at hworker ⊢
      omega
    · rw [List.perm_iff_count]
      intro a
      have hworker := (hcount request a).2
      simp only [results, delivered, List.count_append, Worker.result] at hworker ⊢
      omega
  · exact h

end State

/-! ## What the result carries -/

@[simp] theorem JobRequest.result_id (request : JobRequest) (handler : Option H)
    (outcome : Outcome) : (request.result handler outcome).id = request.id := by
  cases handler <;> cases outcome <;> rfl

@[simp] theorem JobRequest.result_owner (request : JobRequest) (handler : Option H)
    (outcome : Outcome) : (request.result handler outcome).owner = request.owner := rfl

theorem JobRequest.result_kind {request : JobRequest} {handler : Option H} {outcome : Outcome}
    (h : ∀ record, outcome = .returned record → handler.isSome = true → record.kind = request.kind) :
    (request.result handler outcome).kind = request.kind := by
  cases handler with
  | none => rfl
  | some handler =>
    cases outcome with
    | returned record => exact h record rfl rfl
    | threw what => rfl
    | threwOther => rfl

namespace State

theorem OneResultEach.runHandler (h : s.OneResultEach) {i : Nat} {outcome : Outcome}
    (hkind : KindKept s (.runHandler i outcome)) : (s.runHandler i outcome).OneResultEach := by
  unfold State.runHandler
  split
  · rename_i request handler hi
    have hcount := count_worker hi (.ran ⟨request.number, request.value.result handler outcome⟩)
    refine h.answered request (request.value.result handler outcome) rfl ?_ ?_
      (JobRequest.result_id _ _ _) ?_ (JobRequest.result_owner _ _ _) h.ordered h.finished
    · rw [List.perm_iff_count]
      intro a
      have hworker := (hcount a ⟨0, .blank⟩).1
      simp only [requests, List.count_append, List.count_cons, Worker.request, Option.toList_none,
        Option.toList_some, List.count_nil] at hworker ⊢
      omega
    · rw [List.perm_iff_count]
      intro a
      have hworker := (hcount request a).2
      simp only [results, delivered, List.count_append, List.count_cons, Worker.result,
        Option.toList_none, Option.toList_some, List.count_nil] at hworker ⊢
      omega
    · apply JobRequest.result_kind
      intro record hreturned hhandler
      subst hreturned
      obtain ⟨found, rfl⟩ := Option.isSome_iff_exists.mp hhandler
      have hrunning : s.running i = some request := by
        rw [running, hi]
      rw [KindKept, kindKept, hrunning] at hkind
      exact of_decide_eq_true hkind
  · exact h

theorem OneResultEach.complete (h : s.OneResultEach) (i : Nat) : (s.complete i).OneResultEach := by
  unfold State.complete
  split
  · rename_i result hi
    have hcount := count_worker hi .idle
    let idle : State H := { s with workers := s.workers.set i .idle }
    have hpushed := push_ordered (s := idle) result h.ordered h.finished
    have hjobs : (idle.push result).jobs = s.jobs := rfl
    refine h.moved hjobs ?_ ?_ hpushed.1 hpushed.2
    · rw [List.perm_iff_count]
      intro a
      have hworker := (hcount a ⟨0, .blank⟩).1
      simp only [idle, State.push, requests, List.count_append, Worker.request] at hworker ⊢
      omega
    · rw [List.perm_iff_count]
      intro a
      have hworker := (hcount ⟨0, ⟨0, "", "", .engine⟩⟩ a).2
      simp only [idle, State.push, results, delivered, List.count_append, Worker.result,
        List.count_cons, Option.toList_none, Option.toList_some, List.count_nil] at hworker ⊢
      omega
  · exact h

theorem OneResultEach.poll (h : s.OneResultEach) (which : Poll) :
    (s.poll which).OneResultEach := by
  have hsplit := (which.run_oldest s.completed).split
  have hkept := (which.run_oldest s.completed).kept
  refine h.moved rfl (.refl _) ?_ ?_ ?_
  · rw [List.perm_iff_count] at hsplit ⊢
    intro a
    have hcount := hsplit a
    simp only [State.poll, results, delivered, List.flatten_append, List.flatten_cons,
      List.flatten_nil, List.append_nil, List.count_append] at hcount ⊢
    omega
  · exact (hkept.map Numbered.number).trans h.ordered
  · refine h.finished.trans ?_
    apply List.Perm.map
    rw [List.perm_iff_count] at hsplit ⊢
    intro a
    have hcount := hsplit a
    simp only [State.poll, delivered, List.flatten_append, List.flatten_cons,
      List.flatten_nil, List.append_nil, List.count_append] at hcount ⊢
    omega

end State

/-- One step of a thread. -/
theorem State.OneResultEach.step (h : s.OneResultEach) (action : Action H) (hkind : KindKept s action) :
    (step s action).OneResultEach := by
  cases action with
  | registerHandler kind handler =>
    cases handler with
    | none => exact h
    | some handler => exact h.moved rfl (.refl _) (.refl _) h.ordered h.finished
  | submit kind payload owner => exact h.submit kind payload owner
  | lookUp i => exact h.lookUp i
  | enqueue i => exact h.enqueue i
  | popJob i => exact h.popJob i
  | copyHandler i => exact h.copyHandler i
  | runHandler i outcome => exact h.runHandler hkind
  | complete i => exact h.complete i
  | poll which => exact h.poll which

theorem answered (s : State H) (action : Action H) : Answered s action := by
  cases action with
  | poll which => exact ⟨(which.run s.completed).1, rfl, which.run_oldest s.completed⟩
  | registerHandler kind handler => cases handler <;> rfl
  | submit kind payload owner => rfl
  | lookUp i =>
    unfold Answered step State.lookUp
    dsimp only
    split
    · split_ifs <;> rfl
    · rfl
  | enqueue i =>
    unfold Answered step State.enqueue
    dsimp only
    split <;> rfl
  | popJob i =>
    unfold Answered step State.popJob
    dsimp only
    split <;> rfl
  | copyHandler i =>
    unfold Answered step State.copyHandler
    dsimp only
    split <;> rfl
  | runHandler i outcome =>
    unfold Answered step State.runHandler
    dsimp only
    split <;> rfl
  | complete i =>
    unfold Answered step State.complete
    dsimp only
    split <;> rfl

theorem start_oneResultEach (threads : Nat) (handlers : List (String × H)) :
    (State.start threads handlers).OneResultEach where
  once := by
    have hrequest : (List.replicate threads (Worker.idle : Worker H)).filterMap Worker.request = [] := by
      simp [List.filterMap_replicate_of_none, Worker.request]
    have hresult : (List.replicate threads (Worker.idle : Worker H)).filterMap Worker.result = [] := by
      simp [List.filterMap_replicate_of_none, Worker.result]
    simp [State.numbers, State.requests, State.results, State.delivered, State.start, hrequest,
      hresult]
  asked := by
    intro request hrequest
    simp [State.requests, State.start, Worker.request] at hrequest
  carried := by
    intro result hresult
    simp [State.results, State.delivered, State.start, Worker.result] at hresult
  ordered := .refl _
  finished := .refl _

/-- In every run of the threads whose handlers return records of the kind they were asked for,
each job has one place and its result belongs to it, and polls return the oldest results. -/
theorem one_result_each (threads : Nat) (handlers : List (String × H)) (actions : List (Action H))
    (h : Along step KindKept (State.start threads handlers) actions) :
    (actions.foldl step (State.start threads handlers)).OneResultEach ∧
      Along step Answered (State.start threads handlers) actions := by
  constructor
  · apply h.invariant (fun s action hs hkind => hs.step action hkind)
    exact start_oneResultEach threads handlers
  · exact along_of_forall answered _ _

theorem one_result_each_echo :
    ([.submit "echo" "a" .lua, .submit "missing" "" .engine, .lookUp 1, .lookUp 0, .enqueue 0,
        .popJob 1, .copyHandler 1, .runHandler 1 (.returned { JobResult.blank with kind := "echo" }),
        .complete 1, .poll (.kindOwner "echo" .lua 0), .poll (.all 1)].foldl step
      (State.start 2 [("echo", ())])).OneResultEach :=
  (one_result_each 2 [("echo", ())] _ (by decide)).1

/-- The record of a handler keeps a kind that is not the job's. -/
theorem record_keeps_kind :
    ¬ ∀ (threads : Nat) (handlers : List (String × Unit)) (actions : List (Action Unit)),
        (actions.foldl step (State.start threads handlers)).OneResultEach := by
  intro hclaim
  have hrun := hclaim 1 [("echo", ())]
    [.submit "echo" "a" .lua, .lookUp 0, .enqueue 0, .popJob 0, .copyHandler 0,
      .runHandler 0 (.returned .blank), .complete 0]
  obtain ⟨job, hjob, -, hkind, -⟩ := hrun.carried ⟨0, { JobResult.blank with id := 1, owner := .lua }⟩
    (by decide)
  obtain rfl : JobRequest.mk 1 "echo" "a" .lua = job := Option.some.inj hjob
  exact absurd hkind (by decide)

end Space2.Jobs
