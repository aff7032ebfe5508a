import Mathlib.Tactic.SplitIfs
import Space2.Sql.Compile

/-!
# The leaves of a query

A `Trace` lists the leaves of a tree in the order in which the builder visits them and
says which of them stand in the text, one after another. The two orders differ where the
builder compiles ahead: the values of a membership test, the branches of a CASE with a
base, the window of `over` and the columns of an index come before what is written in
front of them.
-/
namespace Space2.Sql

variable {V : Type}

structure Leaf (V : Type) where
  value : Option V
  name : Option String

/-- A place in the text: a visited leaf by its number, or the caller's own placeholder. -/
inductive Place
  | visit (index : Nat)
  | question
  | colon
deriving DecidableEq

def Place.shift (count : Nat) : Place → Place
  | .visit index => .visit (count + index)
  | .question => .question
  | .colon => .colon

structure Trace (V : Type) where
  visits : List (Leaf V)
  order : List Place

namespace Trace

def empty : Trace V := ⟨[], []⟩
def leaf (value : Option V) (name : Option String) : Trace V := ⟨[⟨value, name⟩], [.visit 0]⟩
def question : Trace V := ⟨[], [.question]⟩
def colon : Trace V := ⟨[], [.colon]⟩

def append (first second : Trace V) : Trace V :=
  ⟨first.visits ++ second.visits,
    first.order ++ second.order.map (Place.shift first.visits.length)⟩

instance : Append (Trace V) := ⟨append⟩

/-- `early` is visited first and stands after `rest`. -/
def later (early rest : Trace V) : Trace V :=
  ⟨early.visits ++ rest.visits,
    rest.order.map (Place.shift early.visits.length) ++ early.order⟩

def dropped (trace : Trace V) : Trace V := ⟨trace.visits, []⟩

def all (traces : List (Trace V)) : Trace V := traces.foldr append empty

@[ext] theorem ext {first second : Trace V} (hvisits : first.visits = second.visits)
    (horder : first.order = second.order) : first = second := by
  cases first
  cases second
  obtain rfl := hvisits
  obtain rfl := horder
  rfl

theorem append_def (first second : Trace V) : first ++ second = append first second := rfl

@[simp] theorem visits_append (first second : Trace V) :
    (first ++ second).visits = first.visits ++ second.visits := rfl

@[simp] theorem order_append (first second : Trace V) : (first ++ second).order =
    first.order ++ second.order.map (Place.shift first.visits.length) := rfl

theorem shift_zero : (Place.shift 0) = id := by
  funext place
  cases place <;> simp [Place.shift]

theorem shift_shift (first second : Nat) :
    Place.shift first ∘ Place.shift second = Place.shift (first + second) := by
  funext place
  cases place <;> simp [Place.shift, Nat.add_assoc]

@[simp] theorem empty_append (trace : Trace V) : empty ++ trace = trace := by
  ext1
  · rfl
  · simp [empty, shift_zero]

@[simp] theorem append_empty (trace : Trace V) : trace ++ empty = trace := by
  ext1 <;> simp [empty]

@[simp] theorem append_assoc (first second third : Trace V) :
    first ++ second ++ third = first ++ (second ++ third) := by
  ext1 <;> simp [shift_shift]

@[simp] theorem all_nil : all ([] : List (Trace V)) = empty := rfl

@[simp] theorem all_cons (trace : Trace V) (rest : List (Trace V)) :
    all (trace :: rest) = trace ++ all rest := rfl

@[simp] theorem all_append (first second : List (Trace V)) :
    all (first ++ second) = all first ++ all second := by
  induction first with
  | nil => simp
  | cons trace first ih => simp [ih]

@[simp] theorem all_replicate_empty (count : Nat) :
    all (List.replicate count (empty : Trace V)) = empty := by
  induction count with
  | zero => rfl
  | succ count ih => rw [List.replicate_succ, all_cons, ih, empty_append]

@[simp] theorem all_map_empty {α : Type} (items : List α) :
    all (items.map fun _ => (empty : Trace V)) = empty := by
  induction items with
  | nil => rfl
  | cons item items ih => rw [List.map_cons, all_cons, ih, empty_append]

end Trace

/-! ## The leaves of each node -/

mutual

def Expr.leaves : Expr V → Trace V
  | .raw _ | .table _ | .schema _ | .field _ _ _ | .star _ | .unsupported _ | .excludedField _
  | .query _ => .empty
  | .literal value => .leaf value none
  | .param value name => .leaf value name
  | .placeholder .qmark _ => .question
  | .placeholder .numeric _ | .placeholder .named _ => .colon
  | .placeholder .parameter _ | .placeholder .format _ | .placeholder .pyformat _ => .empty
  | .aliased expr _ => expr.leaves
  | .binary _ left right => left.leaves ++ right.leaves
  | .unary _ expr => expr.leaves
  | .logical _ items => leavesExprs items
  | .inValues _ left values => .later (leavesExprs values) left.leaves
  | .inExpr _ left values => .later values.leaves left.leaves
  | .between value low high => value.leaves ++ low.leaves ++ high.leaves
  | .isNull _ expr => expr.leaves
  | .exists query => query.leaves
  | .tuple values => leavesExprs values
  | .extract part field => part.leaves ++ field.leaves
  | .call _ args _ _ ignoreNulls special filters windowed partitionBy windowOrderBy windowFrame =>
    leavesExprs args ++
      (if ignoreNulls && !args.isEmpty then
        if special.isNone || special.isRaw then special.leaves.dropped
        else special.leaves.dropped ++ special.leaves
      else special.leaves) ++
      leavesExprs filters ++
      (if windowed then
        leavesExprs partitionBy ++ leavesOrderItems windowOrderBy ++ windowFrame.leaves
      else .empty)
  | .case base parts otherwise =>
    .later (leavesParts base.isSome parts ++ leavesOption otherwise) (leavesOption base)
  | .over expr partitionBy orderBy _ =>
    .later (leavesExprs partitionBy ++ leavesOrderItems orderBy) expr.leaves

def leavesExprs : List (Expr V) → Trace V
  | [] => .empty
  | expr :: rest => expr.leaves ++ leavesExprs rest

def leavesOption : Option (Expr V) → Trace V
  | none => .empty
  | some expr => expr.leaves

def leavesOrderItems : List (OrderItem V) → Trace V
  | [] => .empty
  | .mk expr _ :: rest => expr.leaves ++ leavesOrderItems rest

def leavesParts (based : Bool) : List (CasePart V) → Trace V
  | [] => .empty
  | .mk condition whenValue result :: rest =>
    (if based then whenValue.leaves else condition.leaves) ++ result.leaves ++
      leavesParts based rest

def Special.leaves : Special V → Trace V
  | .asType type => type.leaves
  | .none | .asTypeName _ | .using _ | .raw _ | .other => .empty

def FrameBound.leaves : FrameBound V → Trace V
  | .expr expr => expr.leaves
  | .edge _ _ | .text _ => .empty

def Frame.leaves : Frame V → Trace V
  | .none => .empty
  | .from _ bound => bound.leaves
  | .between _ bound andBound => bound.leaves ++ andBound.leaves

def Column.leaves : Column V → Trace V
  | .name _ => .empty
  | .expr expr => expr.leaves

def leavesColumns : List (Column V) → Trace V
  | [] => .empty
  | column :: rest => column.leaves ++ leavesColumns rest

def leavesSets : List (SetItem V) → Trace V
  | [] => .empty
  | .mk field value :: rest => field.leaves ++ value.leaves ++ leavesSets rest

def leavesCtes : List (Cte V) → Trace V
  | [] => .empty
  | .mk _ query :: rest => query.leaves ++ leavesCtes rest

def JoinCondition.leaves : JoinCondition V → Trace V
  | .on criterion => criterion.leaves
  | .none | .using _ => .empty

def leavesJoins : List (Join V) → Trace V
  | [] => .empty
  | .mk _ table condition :: rest => table.leaves ++ condition.leaves ++ leavesJoins rest

def leavesSetOps : List (SetOp V) → Trace V
  | [] => .empty
  | .mk _ query :: rest => query.leaves ++ leavesSetOps rest

def leavesRows : List (List (Expr V)) → Trace V
  | [] => .empty
  | row :: rest => leavesExprs row ++ leavesRows rest

def Conflict.leaves : Conflict V → Trace V
  | .none => .empty
  | .pending target => (leavesColumns target).dropped
  | .doNothing target => leavesColumns target
  | .doUpdate target sets criterion =>
    leavesColumns target ++ leavesSets sets ++ leavesOption criterion

def References.leaves : References V → Trace V
  | .mk table _ _ _ => table.leaves

def leavesReferences : Option (References V) → Trace V
  | none => .empty
  | some references => references.leaves

def leavesColumnDefinitions : List (ColumnDefinition V) → Trace V
  | [] => .empty
  | .mk _ _ _ default _ _ _ check references :: rest =>
    leavesOption default ++ leavesOption check ++ leavesReferences references ++
      leavesColumnDefinitions rest

def leavesConstraints : List (TableConstraint V) → Trace V
  | [] => .empty
  | .primaryKey _ :: rest | .unique _ :: rest => leavesConstraints rest
  | .check expr :: rest => expr.leaves ++ leavesConstraints rest
  | .foreignKey _ references :: rest => references.leaves ++ leavesConstraints rest

def leavesQueryOption : Option (Query V) → Trace V
  | none => .empty
  | some query => query.leaves

def Query.leaves : Query V → Trace V
  | .select ctes _ _ selects source joins criterion groupBy having orderBy _ _ _ setOps =>
    leavesCtes ctes ++ leavesExprs selects ++ leavesOption source ++ leavesJoins joins ++
      leavesOption criterion ++ leavesExprs groupBy ++ leavesOption having ++
      leavesOrderItems orderBy ++ leavesSetOps setOps
  | .insert into _ _ rows selectQuery conflict returning =>
    leavesOption into ++
      (if selectQuery.isSome then leavesQueryOption selectQuery else leavesRows rows) ++
      conflict.leaves ++ leavesExprs returning
  | .update table sets criterion returning =>
    leavesOption table ++ leavesSets sets ++ leavesOption criterion ++ leavesExprs returning
  | .delete source criterion returning =>
    leavesOption source ++ leavesOption criterion ++ leavesExprs returning
  | .createTable table _ _ selectQuery columns constraints _ _ =>
    table.leaves ++ (if selectQuery.isSome then leavesQueryOption selectQuery
      else leavesColumnDefinitions columns ++ leavesConstraints constraints)
  | .createIndex _ _ _ table columns criterion =>
    .later (leavesColumns columns) (leavesOption table) ++ leavesOption criterion
  | .createView view _ _ selectQuery => view.leaves ++ leavesQueryOption selectQuery
  | .drop _ _ _ => .empty

end

/-! ## A fragment's leaves -/

def Fragment.trace : Fragment V → Trace V
  | .text _ | .fail _ => .empty
  | .value leaf name => .leaf leaf name
  | .question => .question
  | .colon _ => .colon
  | .append first second => first.trace ++ second.trace
  | .later early rest => .later early.trace rest.trace
  | .dropped fragment => fragment.trace.dropped

@[simp] theorem trace_append (first second : Fragment V) :
    (first ++ second).trace = first.trace ++ second.trace := rfl

@[simp] theorem trace_text (sql : String) : (Fragment.text sql : Fragment V).trace = .empty := rfl

@[simp] theorem trace_joined (separator : String) (fragments : List (Fragment V)) :
    (joined separator fragments).trace = .all (fragments.map Fragment.trace) := by
  induction fragments with
  | nil => rfl
  | cons fragment rest ih =>
    cases rest with
    | nil => simp [joined]
    | cons next rest => simp [joined, ih]

@[simp] theorem trace_inParentheses (fragment : Fragment V) :
    (inParentheses fragment).trace = fragment.trace := by
  simp [inParentheses]

@[simp] theorem trace_binaryOp (op : BinaryOp) : (binaryOp op : Fragment V).trace = .empty := by
  unfold binaryOp
  split <;> rfl

@[simp] theorem trace_assertion (condition : Bool) (message : String) (fragment : Fragment V) :
    (assertion condition message fragment).trace = fragment.trace := by
  unfold assertion
  cases condition
  · exact Trace.empty_append _
  · exact Trace.empty_append _

@[simp] theorem trace_membership (negated : Bool) (left values : Fragment V) :
    (membership negated left values).trace = .later values.trace left.trace := by
  simp [membership, Fragment.trace]

@[simp] theorem trace_logical (op : LogicalOp) (items : List (Fragment V)) :
    (logical op items).trace = .all (items.map Fragment.trace) := by
  unfold logical
  cases items with
  | nil => cases op <;> rfl
  | cons item items => cases op <;> simp

@[simp] theorem trace_clause (keyword : String) (items : List (Fragment V)) :
    Trace.all ((clause keyword items).map Fragment.trace) = .all (items.map Fragment.trace) := by
  cases items <;> simp [clause, omittedIf]

@[simp] theorem trace_optional (keyword : String) (item : Option (Fragment V)) :
    Trace.all ((optional keyword item).map Fragment.trace) =
      (item.map Fragment.trace).getD .empty := by
  cases item <;> simp [optional]

@[simp] theorem trace_omittedIf (condition : Bool) (sql : String) :
    Trace.all ((omittedIf condition [.text sql] : List (Fragment V)).map Fragment.trace) =
      .empty := by
  cases condition <;> simp [omittedIf]

@[simp] theorem trace_windowClauses (partitionBy orderBy frame : List (Fragment V)) :
    (windowClauses partitionBy orderBy frame).trace =
      .all (partitionBy.map Fragment.trace) ++ .all (orderBy.map Fragment.trace) ++
        .all (frame.map Fragment.trace) := by
  simp [windowClauses]

@[simp] theorem trace_conflictTarget (target : List (Fragment V)) :
    (conflictTarget target).trace = .all (target.map Fragment.trace) := by
  cases target <;> simp [conflictTarget]

theorem trace_callBody (name : String) (args : List (Fragment V))
    (distinct omitParens ignoreNulls isNone isRaw : Bool) (special : Fragment V)
    (hnone : isNone = true → special.trace = .empty) :
    (callBody name args distinct omitParens ignoreNulls isNone isRaw special).trace =
      .all (args.map Fragment.trace) ++
        (if ignoreNulls && !args.isEmpty then
          if isNone || isRaw then special.trace.dropped else special.trace.dropped ++ special.trace
        else special.trace) := by
  have hdistinct : (if distinct = true then (.text "DISTINCT " : Fragment V)
      else .text "").trace = .empty := by
    cases distinct <;> rfl
  have hdropped : (Fragment.dropped special).trace = special.trace.dropped := rfl
  unfold callBody
  dsimp only
  cases ignoreNulls <;> cases args <;> cases isNone <;> cases isRaw <;> cases omitParens <;>
    simp_all

@[simp] theorem trace_later (early rest : Fragment V) :
    (Fragment.later early rest).trace = .later early.trace rest.trace := rfl

@[simp] theorem trace_caseExpr (base : Option (Fragment V)) (parts : List (Fragment V))
    (otherwise : Option (Fragment V)) :
    (caseExpr base parts otherwise).trace =
      .later (.all (parts.map Fragment.trace) ++ (otherwise.map Fragment.trace).getD .empty)
        ((base.map Fragment.trace).getD .empty) := by
  cases base <;> cases otherwise <;> simp [caseExpr]

@[simp] theorem trace_insertSource (selectQuery : Option (Fragment V))
    (rows : List (Fragment V)) :
    (insertSource selectQuery rows).trace =
      if selectQuery.isSome then (selectQuery.map Fragment.trace).getD .empty
      else .all (rows.map Fragment.trace) := by
  cases selectQuery <;> simp [insertSource]

@[simp] theorem trace_tableBody (selectQuery : Option (Fragment V))
    (definitions : List (Fragment V)) (suffix : String) :
    (tableBody selectQuery definitions suffix).trace =
      if selectQuery.isSome then (selectQuery.map Fragment.trace).getD .empty
      else .all (definitions.map Fragment.trace) := by
  cases selectQuery <;> simp [tableBody]

end Space2.Sql
