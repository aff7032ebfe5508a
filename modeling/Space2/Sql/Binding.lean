import Mathlib.Data.List.Basic
import Space2.Base.Checks
import Space2.Sql.Tracing

/-!
# Parameters and their placeholders

A compiled query is bound when every `?`, from left to right, has its entry among the
parameters, and every `:name` its value in the map. Which queries are bound can be read
off their leaves: in qmark style the visited values must be the written ones, in named
style the last leaf visited under a name must have the value of every leaf written
under it.
-/
namespace Space2.Sql

variable {V : Type}

/-! ## Marks in the text -/

inductive Mark (V : Type)
  | leaf (name : Option String) (value : Option V)
  | question
  | colon

def Piece.mark? : Piece V → Option (Mark V)
  | .text _ => none
  | .mark name leaf => some (.leaf name leaf)
  | .question => some .question
  | .colon _ => some .colon

def marks (pieces : List (Piece V)) : List (Mark V) := pieces.filterMap Piece.mark?

theorem marks_append (first second : List (Piece V)) :
    marks (first ++ second) = marks first ++ marks second := List.filterMap_append

/-- The state once the leaves have been visited one after another. -/
def CompileState.after (state : CompileState V) (leaves : List (Leaf V)) : CompileState V :=
  leaves.foldl (fun state leaf => (addParam state leaf.value leaf.name).2) state

/-- The name a leaf is written with. -/
def CompileState.nameOf (state : CompileState V) (leaf : Leaf V) : Option String :=
  match state.paramStyle with
  | .named => some (leaf.name.getD ("p" ++ toString state.nextNameIndex))
  | .qmark => none

def CompileState.names (state : CompileState V) : List (Leaf V) → List (Option String)
  | [] => []
  | leaf :: rest => state.nameOf leaf :: (addParam state leaf.value leaf.name).2.names rest

theorem addParam_mark (state : CompileState V) (value : Option V) (name : Option String) :
    (addParam state value name).1 = .mark (state.nameOf ⟨value, name⟩) value := by
  unfold addParam CompileState.nameOf
  cases state.paramStyle <;> rfl

theorem names_append (state : CompileState V) (first second : List (Leaf V)) :
    state.names (first ++ second) = state.names first ++ (state.after first).names second := by
  induction first generalizing state with
  | nil => rfl
  | cons leaf first ih =>
    rw [List.cons_append, CompileState.names, ih]
    rfl

@[simp] theorem length_names (state : CompileState V) (leaves : List (Leaf V)) :
    (state.names leaves).length = leaves.length := by
  induction leaves generalizing state with
  | nil => rfl
  | cons leaf leaves ih => simp [CompileState.names, ih]

theorem after_append (state : CompileState V) (first second : List (Leaf V)) :
    state.after (first ++ second) = (state.after first).after second := List.foldl_append

/-- What stands at a place when the leaves are visited from a state on. -/
def CompileState.placed (state : CompileState V) (leaves : List (Leaf V)) :
    Place → Option (Mark V)
  | .visit index => (state.names leaves)[index]?.bind fun name =>
      leaves[index]?.map fun leaf => .leaf name leaf.value
  | .question => some .question
  | .colon => some .colon

theorem placed_append_left {state : CompileState V} {first : List (Leaf V)} {place : Place}
    (h : (state.placed first place).isSome = true) (second : List (Leaf V)) :
    state.placed (first ++ second) place = state.placed first place := by
  cases place with
  | visit index =>
    have hindex : index < first.length := by
      by_contra hlarge
      have hnone : (state.names first)[index]? = none :=
        List.getElem?_eq_none (by rw [length_names]; omega)
      simp [CompileState.placed, hnone] at h
    have hname : index < (state.names first).length := by rwa [length_names]
    simp only [CompileState.placed, names_append, List.getElem?_append_left hindex,
      List.getElem?_append_left hname]
  | question => rfl
  | colon => rfl

theorem placed_append_right (state : CompileState V) (first second : List (Leaf V))
    (place : Place) :
    state.placed (first ++ second) (place.shift first.length) =
      (state.after first).placed second place := by
  cases place with
  | visit index =>
    have hnames : (state.names (first ++ second))[first.length + index]? =
        ((state.after first).names second)[index]? := by
      rw [names_append, ← length_names state first, List.getElem?_append_right (by omega),
        Nat.add_sub_cancel_left]
    have hleaves : (first ++ second)[first.length + index]? = second[index]? := by
      rw [List.getElem?_append_right (by omega), Nat.add_sub_cancel_left]
    simp only [Place.shift, CompileState.placed, hnames, hleaves]
  | question => rfl
  | colon => rfl

/-! ## A run visits the leaves and writes the marks -/

/-- The text carries the marks of the trace in text order, and the leaves have been visited. -/
structure Follows (trace : Trace V) (state : CompileState V) (pieces : List (Piece V))
    (next : CompileState V) : Prop where
  next : next = state.after trace.visits
  marks : (marks pieces).map some = trace.order.map (state.placed trace.visits)

theorem Follows.isSome {trace : Trace V} {state next : CompileState V} {pieces : List (Piece V)}
    (h : Follows trace state pieces next) {place : Place} (hplace : place ∈ trace.order) :
    (state.placed trace.visits place).isSome = true := by
  have hmem : state.placed trace.visits place ∈ (Sql.marks pieces).map some := by
    rw [h.marks]
    exact List.mem_map_of_mem hplace
  obtain ⟨mark, -, hmark⟩ := List.mem_map.1 hmem
  rw [← hmark]
  rfl

theorem Follows.map_left {trace : Trace V} {state next : CompileState V}
    {pieces : List (Piece V)} (h : Follows trace state pieces next) (rest : List (Leaf V)) :
    trace.order.map (state.placed (trace.visits ++ rest)) = (Sql.marks pieces).map some := by
  rw [h.marks]
  exact List.map_congr_left fun place hplace => placed_append_left (h.isSome hplace) rest

theorem Follows.map_right {trace : Trace V} {state next : CompileState V} {first : List (Leaf V)}
    {pieces : List (Piece V)} (h : Follows trace (state.after first) pieces next) :
    (trace.order.map (Place.shift first.length)).map (state.placed (first ++ trace.visits)) =
      (Sql.marks pieces).map some := by
  rw [List.map_map, h.marks]
  exact List.map_congr_left fun place _ => placed_append_right state first trace.visits place

theorem Follows.append {first second : Trace V} {state middle next : CompileState V}
    {before after : List (Piece V)} (h : Follows first state before middle)
    (h' : Follows second middle after next) :
    Follows (first ++ second) state (before ++ after) next where
  next := by
    rw [Trace.visits_append, after_append, ← h.next]
    exact h'.next
  marks := by
    rw [h.next] at h'
    rw [Trace.visits_append, Trace.order_append, List.map_append, h.map_left, h'.map_right,
      marks_append, List.map_append]

theorem Follows.later {early rest : Trace V} {state middle next : CompileState V}
    {before after : List (Piece V)} (h : Follows early state after middle)
    (h' : Follows rest middle before next) :
    Follows (.later early rest) state (before ++ after) next where
  next := by
    rw [Trace.later, after_append, ← h.next]
    exact h'.next
  marks := by
    rw [h.next] at h'
    rw [Trace.later, List.map_append, h.map_left, h'.map_right, marks_append, List.map_append]

theorem run_follows (fragment : Fragment V) {state next : CompileState V}
    {pieces : List (Piece V)} (h : fragment.run state = .ok (pieces, next)) :
    Follows fragment.trace state pieces next := by
  induction fragment generalizing state next pieces with
  | text sql =>
    obtain ⟨rfl, rfl⟩ := Prod.mk.inj (Except.ok.inj h)
    exact ⟨rfl, rfl⟩
  | value leaf name =>
    obtain ⟨rfl, rfl⟩ := Prod.mk.inj (Except.ok.inj h)
    refine ⟨rfl, ?_⟩
    rw [addParam_mark]
    rfl
  | question =>
    obtain ⟨rfl, rfl⟩ := Prod.mk.inj (Except.ok.inj h)
    exact ⟨rfl, rfl⟩
  | colon name =>
    obtain ⟨rfl, rfl⟩ := Prod.mk.inj (Except.ok.inj h)
    exact ⟨rfl, rfl⟩
  | append first second ihfirst ihsecond =>
    obtain ⟨⟨before, middle⟩, hfirst, h⟩ := Base.bind_eq_ok.1 h
    obtain ⟨⟨after, last⟩, hsecond, h⟩ := Base.bind_eq_ok.1 h
    obtain ⟨rfl, rfl⟩ := Prod.mk.inj (Except.ok.inj h)
    exact (ihfirst hfirst).append (ihsecond hsecond)
  | later early rest ihearly ihrest =>
    obtain ⟨⟨after, middle⟩, hearly, h⟩ := Base.bind_eq_ok.1 h
    obtain ⟨⟨before, last⟩, hrest, h⟩ := Base.bind_eq_ok.1 h
    obtain ⟨rfl, rfl⟩ := Prod.mk.inj (Except.ok.inj h)
    exact (ihearly hearly).later (ihrest hrest)
  | dropped fragment ih =>
    obtain ⟨⟨unused, last⟩, hfragment, h⟩ := Base.bind_eq_ok.1 h
    obtain ⟨rfl, rfl⟩ := Prod.mk.inj (Except.ok.inj h)
    exact ⟨(ih hfragment).next, rfl⟩
  | fail message => cases h

theorem compile_follows {query : Query V} {style : ParamStyle} {compiled : Compiled V}
    (h : query.compile style = .ok compiled) :
    ∃ next, compiled = ⟨compiled.pieces, next.params, next.named⟩ ∧
      Follows query.leaves { paramStyle := style } compiled.pieces next := by
  obtain ⟨⟨pieces, next⟩, hrun, h⟩ := Base.bind_eq_ok.1 h
  obtain rfl := Except.ok.inj h
  have hfollows := run_follows (compileQuery query) hrun
  rw [trace_compileQuery] at hfollows
  exact ⟨next, rfl, hfollows⟩

/-! ## Qmark style -/

/-- What each `?` of the text stands for: a leaf's value, or nothing for a placeholder term. -/
def Mark.question? : Mark V → Option (Option (Option V))
  | .leaf none value => some (some value)
  | .leaf (some _) _ => none
  | .question => some none
  | .colon => none

theorem after_qmark (leaves : List (Leaf V)) (state : CompileState V)
    (hstyle : state.paramStyle = .qmark) :
    (state.after leaves).params = state.params ++ leaves.filterMap Leaf.value := by
  induction leaves generalizing state with
  | nil => simp [CompileState.after]
  | cons leaf leaves ih =>
    have hadded : (addParam state leaf.value leaf.name).2 =
        { state with params := state.params ++ leaf.value.toList } := by
      simp [addParam, hstyle]
    have hstep : state.after (leaf :: leaves) =
        (addParam state leaf.value leaf.name).2.after leaves := rfl
    rw [hstep, ih _ (by rw [hadded]; exact hstyle), hadded]
    cases hvalue : leaf.value <;> simp [hvalue]

theorem names_qmark (leaves : List (Leaf V)) (state : CompileState V)
    (hstyle : state.paramStyle = .qmark) : state.names leaves = leaves.map fun _ => none := by
  induction leaves generalizing state with
  | nil => rfl
  | cons leaf leaves ih =>
    have hadded : (addParam state leaf.value leaf.name).2.paramStyle = .qmark := by
      simp [addParam, hstyle]
    rw [CompileState.names, ih _ hadded, CompileState.nameOf, hstyle]
    rfl

def Place.question? (visits : List (Leaf V)) : Place → Option (Option (Option V))
  | .visit index => visits[index]?.map fun leaf => some leaf.value
  | .question => some none
  | .colon => none

/-- The values at the places written as `?`, in text order. -/
def Trace.written (trace : Trace V) : List (Option (Option V)) :=
  trace.order.filterMap (Place.question? trace.visits)

theorem placed_question {state : CompileState V} {leaves : List (Leaf V)}
    (hstyle : state.paramStyle = .qmark) (place : Place) :
    (state.placed leaves place).bind Mark.question? = place.question? leaves := by
  cases place with
  | visit index =>
    rw [CompileState.placed, names_qmark leaves state hstyle, List.getElem?_map, Place.question?]
    cases leaves[index]? <;> rfl
  | question => rfl
  | colon => rfl

theorem Follows.questions {trace : Trace V} {state next : CompileState V}
    {pieces : List (Piece V)} (h : Follows trace state pieces next)
    (hstyle : state.paramStyle = .qmark) :
    (Sql.marks pieces).filterMap Mark.question? = trace.written := by
  calc (Sql.marks pieces).filterMap Mark.question?
      = ((Sql.marks pieces).map some).filterMap (·.bind Mark.question?) := by
        rw [List.filterMap_map]
        rfl
    _ = trace.order.filterMap fun place =>
          (state.placed trace.visits place).bind Mark.question? := by
        rw [h.marks, List.filterMap_map]
        rfl
    _ = trace.written := List.filterMap_congr fun place _ => placed_question hstyle place

/-! ## Named style -/

/-- The names under which leaves are visited, with the generated ones counted from `next`. -/
def bindings : Nat → List (Leaf V) → List (String × Option V)
  | _, [] => []
  | next, leaf :: rest => (leaf.name.getD ("p" ++ toString next), leaf.value) ::
      bindings (if leaf.name.isNone then next + 1 else next) rest

/-- The last value bound to a name. -/
def boundValue (bindings : List (String × Option V)) (name : String) : Option V :=
  (bindings.reverse.lookup name).getD none

theorem addParam_named {state : CompileState V} (hstyle : state.paramStyle = .named)
    (leaf : Leaf V) :
    (addParam state leaf.value leaf.name).2 =
      { state with
        nextNameIndex := if leaf.name.isNone then state.nextNameIndex + 1 else state.nextNameIndex
        named := fun other =>
          if other = leaf.name.getD ("p" ++ toString state.nextNameIndex) then leaf.value
          else state.named other } := by
  simp [addParam, hstyle]

theorem after_named (leaves : List (Leaf V)) (state : CompileState V)
    (hstyle : state.paramStyle = .named) (name : String) :
    (state.after leaves).named name =
      ((bindings state.nextNameIndex leaves).reverse.lookup name).getD (state.named name) := by
  induction leaves generalizing state with
  | nil => rfl
  | cons leaf leaves ih =>
    have hstep : state.after (leaf :: leaves) =
        (addParam state leaf.value leaf.name).2.after leaves := rfl
    rw [hstep, ih _ (by rw [addParam_named hstyle]; exact hstyle), addParam_named hstyle, bindings,
      List.reverse_cons, List.lookup_append]
    cases hlater : (bindings (if leaf.name.isNone then state.nextNameIndex + 1
        else state.nextNameIndex) leaves).reverse.lookup name with
    | some value => rfl
    | none =>
      generalize leaf.name.getD ("p" ++ toString state.nextNameIndex) = written
      by_cases hname : name = written
      · simp [hname]
      · simp [List.lookup, hname, beq_eq_false_iff_ne.2 hname]

theorem names_named (leaves : List (Leaf V)) (state : CompileState V)
    (hstyle : state.paramStyle = .named) :
    state.names leaves = (bindings state.nextNameIndex leaves).map fun bound => some bound.1 := by
  induction leaves generalizing state with
  | nil => rfl
  | cons leaf leaves ih =>
    rw [CompileState.names, ih _ (by rw [addParam_named hstyle]; exact hstyle),
      addParam_named hstyle, CompileState.nameOf, hstyle]
    rfl

theorem values_bindings (leaves : List (Leaf V)) (next : Nat) :
    (bindings next leaves).map Prod.snd = leaves.map Leaf.value := by
  induction leaves generalizing next with
  | nil => rfl
  | cons leaf leaves ih => rw [bindings, List.map_cons, List.map_cons, ih]

theorem placed_named {state : CompileState V} (hstyle : state.paramStyle = .named)
    (leaves : List (Leaf V)) (index : Nat) :
    state.placed leaves (.visit index) =
      (bindings state.nextNameIndex leaves)[index]?.map fun bound =>
        .leaf (some bound.1) bound.2 := by
  have hvalue : leaves[index]?.map Leaf.value =
      (bindings state.nextNameIndex leaves)[index]?.map Prod.snd := by
    rw [← List.getElem?_map, ← List.getElem?_map, values_bindings]
  rw [CompileState.placed, names_named leaves state hstyle, List.getElem?_map]
  cases hbound : (bindings state.nextNameIndex leaves)[index]? with
  | none => rfl
  | some bound =>
    rw [hbound] at hvalue
    obtain ⟨leaf, hleaf, hsame⟩ := Option.map_eq_some_iff.1 hvalue
    simp [hleaf, hsame]

/-! ## Bound queries -/

/-- A `:name` mark finds its leaf's value in the map; a placeholder term has no leaf. -/
def Mark.Named (named : String → Option V) : Mark V → Prop
  | .leaf (some name) value => named name = value
  | .leaf none _ | .question => True
  | .colon => False

/-- Each `?` has its own entry among the parameters, and each `:name` its value in the map. -/
def Compiled.Bound (compiled : Compiled V) : ParamStyle → Prop
  | .qmark => (marks compiled.pieces).filterMap Mark.question? = compiled.params.map (some ∘ some)
  | .named => ∀ mark ∈ marks compiled.pieces, mark.Named compiled.named

def Place.Named (bindings : List (String × Option V)) : Place → Prop
  | .visit index => ∀ bound ∈ bindings[index]?, boundValue bindings bound.1 = bound.2
  | .question => True
  | .colon => False

/-- In qmark style the values that are visited, without the nil ones, are those that are
written. In named style a written leaf is the last one under its name, or has its value. -/
def Trace.Aligned (trace : Trace V) : ParamStyle → Prop
  | .qmark => trace.written = (trace.visits.filterMap Leaf.value).map (some ∘ some)
  | .named => ∀ place ∈ trace.order, place.Named (bindings 1 trace.visits)

theorem placed_named_iff {trace : Trace V} {next : CompileState V} {pieces : List (Piece V)}
    (h : Follows trace { paramStyle := .named } pieces next) :
    (∀ mark ∈ Sql.marks pieces, mark.Named next.named) ↔ trace.Aligned .named := by
  have hnamed : next.named = boundValue (bindings 1 trace.visits) := by
    funext name
    rw [h.next, after_named trace.visits _ rfl]
    rfl
  have hmarks : (∀ mark ∈ Sql.marks pieces, mark.Named next.named) ↔
      ∀ place ∈ trace.order,
        ∀ mark ∈ CompileState.placed { paramStyle := .named } trace.visits place,
          mark.Named next.named := by
    have hforall : (∀ mark ∈ Sql.marks pieces, mark.Named next.named) ↔
        ∀ found ∈ (Sql.marks pieces).map some, ∀ mark ∈ found, mark.Named next.named := by
      simp
    rw [hforall, h.marks]
    simp
  rw [hmarks, hnamed]
  refine forall₂_congr fun place _ => ?_
  cases place with
  | visit index =>
    rw [placed_named rfl, Place.Named]
    cases (bindings 1 trace.visits)[index]? <;> simp [Mark.Named]
  | question => simp [CompileState.placed, Mark.Named, Place.Named]
  | colon => simp [CompileState.placed, Mark.Named, Place.Named]

/-- `SELECT * FROM "events" WHERE …` -/
def eventsWhere (criterion : Expr Nat) : Query Nat :=
  .select [] false false [] (some (.table ⟨"events", none, none⟩)) [] (some criterion) [] none []
    none none false []

end Space2.Sql
