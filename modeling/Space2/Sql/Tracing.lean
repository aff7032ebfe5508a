import Space2.Sql.Leaves

/-!
# What the compiler visits

The fragment compiled from a tree has the tree's leaves, in both orders.
-/
namespace Space2.Sql

variable {V : Type}

theorem isEmpty_compileExprs (exprs : List (Expr V)) :
    (compileExprs exprs).isEmpty = exprs.isEmpty := by
  cases exprs <;> rfl

theorem isSome_compileQueryOption (query : Option (Query V)) :
    (compileQueryOption query).isSome = query.isSome := by
  cases query <;> rfl

mutual

theorem trace_compileExpr : ∀ expr : Expr V, (compileExpr expr).trace = expr.leaves
  | .raw _ => rfl
  | .literal _ => rfl
  | .param _ _ => rfl
  | .placeholder kind _ => by cases kind <;> rfl
  | .table _ => rfl
  | .schema _ => rfl
  | .field _ _ _ => rfl
  | .star _ => rfl
  | .aliased expr _ => by simp [compileExpr, Expr.leaves, trace_compileExpr expr]
  | .binary _ left right => by
    simp [compileExpr, Expr.leaves, trace_compileExpr left, trace_compileExpr right]
  | .unary .not expr => by simp [compileExpr, Expr.leaves, trace_compileExpr expr]
  | .unary .neg expr => by simp [compileExpr, Expr.leaves, trace_compileExpr expr]
  | .logical _ items => by simp [compileExpr, Expr.leaves, trace_compileExprs items]
  | .inValues _ left values => by
    simp [compileExpr, Expr.leaves, trace_compileExpr left, trace_compileExprs values]
  | .inExpr _ left values => by
    simp [compileExpr, Expr.leaves, trace_compileExpr left, trace_compileExpr values]
  | .between value low high => by
    simp [compileExpr, Expr.leaves, trace_compileExpr value, trace_compileExpr low,
      trace_compileExpr high]
  | .unsupported _ => rfl
  | .isNull _ expr => by simp [compileExpr, Expr.leaves, trace_compileExpr expr]
  | .exists query => by simp [compileExpr, Expr.leaves, trace_compileQuery query]
  | .excludedField _ => rfl
  | .tuple values => by simp [compileExpr, Expr.leaves, trace_compileExprs values]
  | .extract part field => by
    simp [compileExpr, Expr.leaves, trace_compileExpr part, trace_compileExpr field]
  | .call name args distinct omitParens ignoreNulls special filters windowed partitionBy
      windowOrderBy windowFrame => by
    have hnone : special.isNone = true → (compileFunctionSpecial special).trace = .empty := by
      intro h
      cases special <;> first | rfl | cases h
    have hbody := trace_callBody name (compileExprs args) distinct omitParens ignoreNulls
      special.isNone special.isRaw (compileFunctionSpecial special) hnone
    rw [trace_compileExprs args, trace_compileFunctionSpecial special, isEmpty_compileExprs]
      at hbody
    have hfiltered : (if filters.isEmpty then callBody name (compileExprs args) distinct omitParens
        ignoreNulls special.isNone special.isRaw (compileFunctionSpecial special)
        else callBody name (compileExprs args) distinct omitParens ignoreNulls special.isNone
          special.isRaw (compileFunctionSpecial special) ++ .text " FILTER(WHERE " ++
          logical .and (compileFilters filters) ++ .text ")").trace =
        (callBody name (compileExprs args) distinct omitParens ignoreNulls special.isNone
          special.isRaw (compileFunctionSpecial special)).trace ++ leavesExprs filters := by
      cases filters with
      | nil => simp [leavesExprs]
      | cons filter filters => simp [trace_compileFilters (filter :: filters)]
    simp only [compileExpr, Expr.leaves]
    cases windowed with
    | false =>
      simp only [Bool.false_eq_true, if_false, hfiltered, hbody, Trace.append_empty]
    | true =>
      simp only [if_true, trace_append, trace_text, hfiltered, hbody, trace_windowClauses,
        trace_compileExprs partitionBy, trace_compileOrderItems windowOrderBy,
        trace_compileFrame windowFrame, Trace.append_empty, Trace.append_assoc]
  | .case base parts otherwise => by
    simp [compileExpr, Expr.leaves, trace_compileOption base,
      trace_compileParts base.isSome parts, trace_compileOption otherwise]
  | .over expr partitionBy orderBy frame => by
    simp [compileExpr, Expr.leaves, trace_compileExprs partitionBy,
      trace_compileOrderItems orderBy, trace_compileExpr expr, Function.comp_def]
  | .query _ => rfl

theorem trace_compileExprs : ∀ exprs : List (Expr V),
    Trace.all ((compileExprs exprs).map Fragment.trace) = leavesExprs exprs
  | [] => rfl
  | expr :: rest => by
    simp [compileExprs, leavesExprs, trace_compileExpr expr, trace_compileExprs rest]

theorem trace_compileOption : ∀ expr : Option (Expr V),
    ((compileOption expr).map Fragment.trace).getD .empty = leavesOption expr
  | none => rfl
  | some expr => trace_compileExpr expr

theorem trace_compileOrderItems : ∀ items : List (OrderItem V),
    Trace.all ((compileOrderItems items).map Fragment.trace) = leavesOrderItems items
  | [] => rfl
  | .mk expr _ :: rest => by
    simp [compileOrderItems, leavesOrderItems, trace_compileExpr expr,
      trace_compileOrderItems rest]

theorem trace_compileParts (based : Bool) : ∀ parts : List (CasePart V),
    Trace.all ((compileParts based parts).map Fragment.trace) = leavesParts based parts
  | [] => rfl
  | .mk condition whenValue result :: rest => by
    cases based <;>
      simp [compileParts, leavesParts, trace_compileExpr condition, trace_compileExpr whenValue,
        trace_compileExpr result, trace_compileParts _ rest]

theorem trace_compileFunctionSpecial : ∀ special : Special V,
    (compileFunctionSpecial special).trace = special.leaves
  | .none => rfl
  | .asType type => by simp [compileFunctionSpecial, Special.leaves, trace_compileExpr type]
  | .asTypeName _ => rfl
  | .using _ => rfl
  | .raw _ => rfl
  | .other => rfl

theorem trace_compileFrameBound : ∀ bound : FrameBound V,
    (compileFrameBound bound).trace = bound.leaves
  | .edge _ _ => rfl
  | .expr expr => trace_compileExpr expr
  | .text _ => rfl

theorem trace_compileFrame : ∀ frame : Frame V,
    Trace.all ((compileFrame frame).map Fragment.trace) = frame.leaves
  | .none => rfl
  | .from _ bound => by simp [compileFrame, Frame.leaves, trace_compileFrameBound bound]
  | .between _ bound andBound => by
    simp [compileFrame, Frame.leaves, trace_compileFrameBound bound,
      trace_compileFrameBound andBound]

theorem trace_compileFilters : ∀ filters : List (Expr V),
    Trace.all ((compileFilters filters).map Fragment.trace) = leavesExprs filters
  | [] => rfl
  | expr :: rest => by
    have hexpr := trace_compileExpr expr
    have hrest := trace_compileFilters rest
    unfold compileFilters
    split
    · next heq => cases heq
    · next items others heq =>
      obtain ⟨rfl, rfl⟩ := List.cons.inj heq
      rw [compileExpr, trace_logical] at hexpr
      rw [List.map_append, Trace.all_append, hexpr, hrest]
      rfl
    · next other others _ heq =>
      obtain ⟨rfl, rfl⟩ := List.cons.inj heq
      rw [List.map_cons, Trace.all_cons, hexpr, hrest]
      rfl

theorem trace_compileColumn : ∀ column : Column V, (compileColumn column).trace = column.leaves
  | .name _ => rfl
  | .expr expr => trace_compileExpr expr

theorem trace_compileColumns : ∀ columns : List (Column V),
    Trace.all ((compileColumns columns).map Fragment.trace) = leavesColumns columns
  | [] => rfl
  | column :: rest => by
    simp [compileColumns, leavesColumns, trace_compileColumn column, trace_compileColumns rest]

theorem trace_compileSets : ∀ sets : List (SetItem V),
    Trace.all ((compileSets sets).map Fragment.trace) = leavesSets sets
  | [] => rfl
  | .mk field value :: rest => by
    simp [compileSets, leavesSets, trace_compileColumn field, trace_compileExpr value,
      trace_compileSets rest]

theorem trace_compileCtes : ∀ ctes : List (Cte V),
    Trace.all ((compileCtes ctes).map Fragment.trace) = leavesCtes ctes
  | [] => rfl
  | .mk _ query :: rest => by
    simp [compileCtes, leavesCtes, trace_compileQuery query, trace_compileCtes rest]

theorem trace_compileJoinCondition : ∀ condition : JoinCondition V,
    (compileJoinCondition condition).trace = condition.leaves
  | .none => rfl
  | .on criterion => by
    simp [compileJoinCondition, JoinCondition.leaves, trace_compileExpr criterion]
  | .using _ => rfl

theorem trace_compileJoins : ∀ joins : List (Join V),
    Trace.all ((compileJoins joins).map Fragment.trace) = leavesJoins joins
  | [] => rfl
  | .mk _ table condition :: rest => by
    simp [compileJoins, leavesJoins, trace_compileExpr table, trace_compileJoinCondition condition,
      trace_compileJoins rest]

theorem trace_compileSetOps : ∀ (setOps : List (SetOp V)) (sql : Fragment V),
    (compileSetOps sql setOps).trace = sql.trace ++ leavesSetOps setOps
  | [], sql => by simp [compileSetOps, leavesSetOps]
  | .mk _ query :: rest, sql => by
    simp [compileSetOps, leavesSetOps, trace_compileQuery query, trace_compileSetOps rest]

theorem trace_compileRows : ∀ rows : List (List (Expr V)),
    Trace.all ((compileRows rows).map Fragment.trace) = leavesRows rows
  | [] => rfl
  | row :: rest => by
    simp [compileRows, leavesRows, trace_compileExprs row, trace_compileRows rest]

theorem trace_compileConflict : ∀ conflict : Conflict V,
    (compileConflict conflict).trace = conflict.leaves
  | .none => rfl
  | .pending target => by
    simp [compileConflict, Conflict.leaves, Fragment.trace, trace_compileColumns target]
  | .doNothing target => by
    simp [compileConflict, Conflict.leaves, trace_compileColumns target]
  | .doUpdate target sets criterion => by
    simp [compileConflict, Conflict.leaves, trace_compileColumns target, trace_compileSets sets,
      trace_compileOption criterion]

theorem trace_compileReferences : ∀ references : References V,
    (compileReferences references).trace = references.leaves
  | .mk table _ _ _ => by
    simp [compileReferences, References.leaves, trace_compileExpr table]

theorem trace_compileReferencesOption : ∀ references : Option (References V),
    Trace.all ((compileReferencesOption references).map Fragment.trace) =
      leavesReferences references
  | none => rfl
  | some references => by
    simp [compileReferencesOption, leavesReferences, trace_compileReferences references]

theorem trace_compileColumnDefinitions : ∀ columns : List (ColumnDefinition V),
    Trace.all ((compileColumnDefinitions columns).map Fragment.trace) =
      leavesColumnDefinitions columns
  | [] => rfl
  | .mk _ type _ default _ _ _ check references :: rest => by
    cases type <;>
      simp [compileColumnDefinitions, leavesColumnDefinitions, trace_compileOption default,
        trace_compileOption check, trace_compileReferencesOption references,
        trace_compileColumnDefinitions rest, Function.comp_def]

theorem trace_compileConstraints : ∀ constraints : List (TableConstraint V),
    Trace.all ((compileConstraints constraints).map Fragment.trace) =
      leavesConstraints constraints
  | [] => rfl
  | .primaryKey _ :: rest => by
    simp [compileConstraints, leavesConstraints, trace_compileConstraints rest]
  | .unique _ :: rest => by
    simp [compileConstraints, leavesConstraints, trace_compileConstraints rest]
  | .check expr :: rest => by
    simp [compileConstraints, leavesConstraints, trace_compileExpr expr,
      trace_compileConstraints rest]
  | .foreignKey _ references :: rest => by
    simp [compileConstraints, leavesConstraints, trace_compileReferences references,
      trace_compileConstraints rest]

theorem trace_compileQueryOption : ∀ query : Option (Query V),
    ((compileQueryOption query).map Fragment.trace).getD .empty = leavesQueryOption query
  | none => rfl
  | some query => trace_compileQuery query

theorem trace_compileQuery : ∀ query : Query V, (compileQuery query).trace = query.leaves
  | .select ctes withRecursive distinct selects source joins criterion groupBy having orderBy limit
      offset forUpdate setOps => by
    have hctes : Trace.all ((omittedIf ctes.isEmpty [.text (if withRecursive then "WITH RECURSIVE "
        else "WITH ") ++ joined ", " (compileCtes ctes)]).map Fragment.trace) =
          leavesCtes ctes := by
      cases ctes with
      | nil => rfl
      | cons cte ctes => simp [omittedIf, trace_compileCtes (cte :: ctes)]
    have hselects : (if selects.isEmpty then .text "*"
        else joined ", " (compileExprs selects) : Fragment V).trace = leavesExprs selects := by
      cases selects with
      | nil => rfl
      | cons select selects => simp [trace_compileExprs (select :: selects)]
    simp [compileQuery, Query.leaves, trace_compileSetOps setOps, hctes, hselects,
      trace_compileOption source, trace_compileJoins joins, trace_compileOption criterion,
      trace_compileExprs groupBy, trace_compileOption having, trace_compileOrderItems orderBy,
      Function.comp_def, -List.isEmpty_iff]
  | .insert into mode columns rows selectQuery conflict returning => by
    have hsource : (insertSource (compileQueryOption selectQuery) (compileRows rows)).trace =
        if selectQuery.isSome then leavesQueryOption selectQuery else leavesRows rows := by
      rw [trace_insertSource, trace_compileQueryOption selectQuery, trace_compileRows rows,
        isSome_compileQueryOption]
    simp [compileQuery, Query.leaves, trace_compileOption into, hsource,
      trace_compileConflict conflict, trace_compileExprs returning]
  | .update table sets criterion returning => by
    simp [compileQuery, Query.leaves, trace_compileOption table, trace_compileSets sets,
      trace_compileOption criterion, trace_compileExprs returning]
  | .delete source criterion returning => by
    simp [compileQuery, Query.leaves, trace_compileOption source, trace_compileOption criterion,
      trace_compileExprs returning]
  | .createTable table _ _ selectQuery columns constraints _ _ => by
    simp [compileQuery, Query.leaves, trace_compileExpr table,
      trace_compileQueryOption selectQuery, isSome_compileQueryOption,
      trace_compileColumnDefinitions columns, trace_compileConstraints constraints]
  | .createIndex _ _ _ table columns criterion => by
    simp [compileQuery, Query.leaves, trace_compileOption table, trace_compileColumns columns,
      trace_compileOption criterion]
  | .createView view _ _ selectQuery => by
    simp [compileQuery, Query.leaves, trace_compileExpr view,
      trace_compileQueryOption selectQuery]
  | .drop _ _ _ => rfl

end

end Space2.Sql
