import Mathlib

/-!
# Expressions and queries of the SQL builder

The builder's tables by their tags. Values are those of a type `V`, and Lua's `nil` is
`none`; what the builder takes for a value without a tag is a `literal`. Fields the
builder fills with an empty list stand for it.
-/
namespace Space2.Sql

inductive SchemaTerm
  | mk (name : String) (parent : Option SchemaTerm)

structure TableTerm where
  name : String
  aliasName : Option String := none
  schema : Option SchemaTerm := none

inductive PlaceholderKind
  | parameter
  | qmark
  | numeric
  | named
  | format
  | pyformat
deriving DecidableEq

inductive BinaryOp
  | eq | ne | gt | gte | lt | lte | like | notLike | glob | ilike | notIlike | regex | regexp
  | rlike | bitand | lshift | rshift | add | sub | mul | div | mod
deriving DecidableEq

inductive UnaryOp
  | not
  | neg
deriving DecidableEq

inductive LogicalOp
  | and
  | or
deriving DecidableEq

/-- The forms the builder offers and refuses to compile. -/
inductive UnsupportedForm
  | fromTo
  | asOf
  | all
  | any
deriving DecidableEq

inductive JoinKind
  | inner | left | leftOuter | right | rightOuter | fullOuter | cross | other
deriving DecidableEq

inductive SetOpKind
  | union
  | unionAll
  | intersect
  | except
deriving DecidableEq

inductive InsertMode
  | plain
  | replace
  | ignore
deriving DecidableEq

inductive DropKind
  | table
  | view
  | index
deriving DecidableEq

mutual

inductive Expr (V : Type) : Type
  | raw (sql : String)
  | literal (value : Option V)
  | param (value : Option V) (name : Option String)
  | placeholder (kind : PlaceholderKind) (placeholder : String)
  | table (table : TableTerm)
  | schema (schema : SchemaTerm)
  | field (table : Option TableTerm) (name : String) (aliasName : Option String)
  | star (table : Option TableTerm)
  | aliased (expr : Expr V) (aliasName : String)
  | binary (op : BinaryOp) (left right : Expr V)
  | unary (op : UnaryOp) (expr : Expr V)
  | logical (op : LogicalOp) (items : List (Expr V))
  | inValues (negated : Bool) (left : Expr V) (values : List (Expr V))
  | inExpr (negated : Bool) (left values : Expr V)
  | between (value low high : Expr V)
  | unsupported (form : UnsupportedForm)
  | isNull (negated : Bool) (expr : Expr V)
  | exists (query : Query V)
  | excludedField (name : String)
  | tuple (values : List (Expr V))
  | extract (part field : Expr V)
  /-- `windowed` says that one of the fields about the window is there, if only as an empty
  list. -/
  | call (name : String) (args : List (Expr V)) (distinct omitParens ignoreNulls : Bool)
      (special : Special V) (filters : List (Expr V)) (windowed : Bool)
      (partitionBy : List (Expr V)) (windowOrderBy : List (OrderItem V)) (windowFrame : Frame V)
  | case (base : Option (Expr V)) (parts : List (CasePart V)) (otherwise : Option (Expr V))
  | over (expr : Expr V) (partitionBy : List (Expr V)) (orderBy : List (OrderItem V))
      (frame : Option String)
  | query (query : Query V)

inductive OrderItem (V : Type) : Type
  | mk (expr : Expr V) (desc : Bool)

inductive CasePart (V : Type) : Type
  | mk (when whenValue then_ : Expr V)

inductive Special (V : Type) : Type
  | none
  | asType (type : Expr V)
  | asTypeName (type : String)
  | using (encoding : String)
  | raw (sql : String)
  | other

inductive FrameBound (V : Type) : Type
  | edge (value : Option String) (modifier : String)
  | expr (expr : Expr V)
  | text (text : String)

inductive Frame (V : Type) : Type
  | none
  | from (kind : String) (bound : FrameBound V)
  | between (kind : String) (bound andBound : FrameBound V)

/-- A column given by its name or as an expression. -/
inductive Column (V : Type) : Type
  | name (name : String)
  | expr (expr : Expr V)

inductive SetItem (V : Type) : Type
  | mk (field : Column V) (value : Expr V)

inductive Cte (V : Type) : Type
  | mk (name : String) (query : Query V)

inductive JoinCondition (V : Type) : Type
  | none
  | on (criterion : Expr V)
  | using (fields : List String)

inductive Join (V : Type) : Type
  | mk (kind : JoinKind) (table : Expr V) (condition : JoinCondition V)

inductive SetOp (V : Type) : Type
  | mk (kind : SetOpKind) (query : Query V)

/-- `pending` has its target and waits for the action. -/
inductive Conflict (V : Type) : Type
  | none
  | pending (target : List (Column V))
  | doNothing (target : List (Column V))
  | doUpdate (target : List (Column V)) (sets : List (SetItem V)) (criterion : Option (Expr V))

inductive References (V : Type) : Type
  | mk (table : Expr V) (columns : List String) (onDelete onUpdate : Option String)

inductive ColumnDefinition (V : Type) : Type
  | mk (name : String) (type : Option String) (nullable : Option Bool) (default : Option (Expr V))
      (primaryKey autoincrement unique : Bool) (check : Option (Expr V))
      (references : Option (References V))

inductive TableConstraint (V : Type) : Type
  | primaryKey (columns : List String)
  | unique (columns : List String)
  | check (expr : Expr V)
  | foreignKey (columns : List String) (references : References V)

inductive Query (V : Type) : Type
  | select (ctes : List (Cte V)) (withRecursive distinct : Bool) (selects : List (Expr V))
      (source : Option (Expr V)) (joins : List (Join V)) (criterion : Option (Expr V))
      (groupBy : List (Expr V)) (having : Option (Expr V)) (orderBy : List (OrderItem V))
      (limit offset : Option String) (forUpdate : Bool) (setOps : List (SetOp V))
  | insert (into : Option (Expr V)) (mode : InsertMode) (columns : List String)
      (rows : List (List (Expr V))) (selectQuery : Option (Query V)) (conflict : Conflict V)
      (returning : List (Expr V))
  | update (table : Option (Expr V)) (sets : List (SetItem V)) (criterion : Option (Expr V))
      (returning : List (Expr V))
  | delete (source : Option (Expr V)) (criterion : Option (Expr V)) (returning : List (Expr V))
  | createTable (table : Expr V) (temporary ifNotExists : Bool) (selectQuery : Option (Query V))
      (columns : List (ColumnDefinition V)) (constraints : List (TableConstraint V))
      (withoutRowid strict : Bool)
  | createIndex (name : String) (unique ifNotExists : Bool) (table : Option (Expr V))
      (columns : List (Column V)) (criterion : Option (Expr V))
  | createView (view : Expr V) (temporary ifNotExists : Bool) (selectQuery : Option (Query V))
  | drop (kind : DropKind) (ifExists : Bool) (target : TableTerm)

end

end Space2.Sql

/-!
# Compiling expressions and queries

Parameters are pushed while fragments are compiled. A `Fragment` records both orders: what
is compiled when, and where its text stands. `append` is the concatenation of the source,
whose operands are compiled from left to right; `later` is a local compiled ahead of the
text that it follows; `dropped` is compiled for a text that is not used.
-/
namespace Space2.Sql

variable {V : Type}

/-! ## Fragments and the compile state -/

inductive ParamStyle
  | qmark
  | named
deriving DecidableEq

structure CompileState (V : Type) where
  paramStyle : ParamStyle := .qmark
  params : List V := []
  named : String → Option V := fun _ => none
  nextNameIndex : Nat := 1

/-- `mark` is what `add-param!` returns: `?`, or `:name`. The other two come from placeholder
terms. -/
inductive Piece (V : Type)
  | text (text : String)
  | mark (name : Option String) (value : Option V)
  | question
  | colon (name : String)

def Piece.sql : Piece V → String
  | .text sql => sql
  | .mark none _ => "?"
  | .mark (some name) _ => ":" ++ name
  | .question => "?"
  | .colon name => ":" ++ name

inductive Fragment (V : Type)
  | text (text : String)
  | value (value : Option V) (explicitName : Option String)
  | question
  | colon (name : String)
  | append (first second : Fragment V)
  | later (early rest : Fragment V)
  | dropped (fragment : Fragment V)
  | fail (message : String)

instance : Append (Fragment V) := ⟨Fragment.append⟩

/-- Inserting nil into the list of parameters leaves it as it was. -/
def addParam (state : CompileState V) (value : Option V) (explicitName : Option String) :
    Piece V × CompileState V :=
  match state.paramStyle with
  | .named =>
    let name := explicitName.getD ("p" ++ toString state.nextNameIndex)
    (.mark (some name) value,
      { state with
          nextNameIndex := if explicitName.isNone then state.nextNameIndex + 1
            else state.nextNameIndex
          named := fun other => if other = name then value else state.named other })
  | .qmark => (.mark none value, { state with params := state.params ++ value.toList })

def Fragment.run : Fragment V → CompileState V → Except String (List (Piece V) × CompileState V)
  | .text sql, state => .ok ([.text sql], state)
  | .value leaf explicitName, state =>
    .ok ([(addParam state leaf explicitName).1], (addParam state leaf explicitName).2)
  | .question, state => .ok ([.question], state)
  | .colon name, state => .ok ([.colon name], state)
  | .append first second, state => do
    let (before, state) ← first.run state
    let (after, state) ← second.run state
    return (before ++ after, state)
  | .later early rest, state => do
    let (after, state) ← early.run state
    let (before, state) ← rest.run state
    return (before ++ after, state)
  | .dropped fragment, state => do
    let (_, state) ← fragment.run state
    return ([], state)
  | .fail message, _ => .error message

/-- `table.concat` -/
def joined (separator : String) : List (Fragment V) → Fragment V
  | [] => .text ""
  | [fragment] => fragment
  | fragment :: rest => fragment ++ .text separator ++ joined separator rest

def omittedIf (condition : Bool) (fragments : List (Fragment V)) : List (Fragment V) :=
  if condition then [] else fragments

/-! ## Names and keywords -/

def quoteIdent (name : String) : String := "\"" ++ name.replace "\"" "\"\"" ++ "\""

def SchemaTerm.sql : SchemaTerm → String
  | .mk name (some parent) => parent.sql ++ "." ++ quoteIdent name
  | .mk name none => quoteIdent name

def aliased (sql : String) : Option String → String
  | some aliasName => sql ++ " AS " ++ quoteIdent aliasName
  | none => sql

def TableTerm.sql (table : TableTerm) : String :=
  aliased (match table.schema with
    | some schema => schema.sql ++ "." ++ quoteIdent table.name
    | none => quoteIdent table.name) table.aliasName

def TableTerm.qualifier (table : TableTerm) : String := quoteIdent (table.aliasName.getD table.name)

def quoted (names : List String) : String := ", ".intercalate (names.map quoteIdent)

def binaryOpSql : BinaryOp → Except String String
  | .eq => .ok "="
  | .ne => .ok "<>"
  | .gt => .ok ">"
  | .gte => .ok ">="
  | .lt => .ok "<"
  | .lte => .ok "<="
  | .like => .ok "LIKE"
  | .notLike => .ok "NOT LIKE"
  | .glob => .ok "GLOB"
  | .ilike => .error "ilike is not supported in sqlite sql-builder"
  | .notIlike => .error "not-ilike is not supported in sqlite sql-builder"
  | .regex => .error "regex (~) is not supported in sqlite sql-builder"
  | .regexp => .ok "REGEXP"
  | .rlike => .error "rlike is not supported in sqlite sql-builder"
  | .bitand => .ok "&"
  | .lshift => .ok "<<"
  | .rshift => .ok ">>"
  | .add => .ok "+"
  | .sub => .ok "-"
  | .mul => .ok "*"
  | .div => .ok "/"
  | .mod => .ok "%"

def binaryOp (op : BinaryOp) : Fragment V :=
  match binaryOpSql op with
  | .ok sql => .text sql
  | .error message => .fail message

def unsupportedMessage : UnsupportedForm → String
  | .fromTo => "from-to is not supported in sqlite sql-builder"
  | .asOf => "as-of is not supported in sqlite sql-builder"
  | .all => "all_ is not supported in sqlite sql-builder"
  | .any => "any_ is not supported in sqlite sql-builder"

def joinKeyword : JoinKind → String
  | .inner => "INNER JOIN"
  | .left => "LEFT JOIN"
  | .leftOuter => "LEFT OUTER JOIN"
  | .right => "RIGHT JOIN"
  | .rightOuter => "RIGHT OUTER JOIN"
  | .fullOuter => "FULL OUTER JOIN"
  | .cross => "CROSS JOIN"
  | .other => "JOIN"

def setOpKeyword : SetOpKind → String
  | .union => "UNION"
  | .unionAll => "UNION ALL"
  | .intersect => "INTERSECT"
  | .except => "EXCEPT"

def placeholderTerm (placeholder : String) : PlaceholderKind → Fragment V
  | .parameter => .text placeholder
  | .qmark => .question
  | .numeric | .named => .colon placeholder
  | .format => .text "%s"
  | .pyformat => .text ("%(" ++ placeholder ++ ")s")

def fieldSql (table : Option TableTerm) (name : String) : String :=
  match table with
  | some table => table.qualifier ++ "." ++ quoteIdent name
  | none => quoteIdent name

def starSql : Option TableTerm → String
  | some table => table.qualifier ++ ".*"
  | none => "*"

/-! ## Assembling the parts of a node -/

def inParentheses (fragment : Fragment V) : Fragment V := .text "(" ++ fragment ++ .text ")"

/-- The values stand on the right of the operator and are compiled before its left operand. -/
def membership (negated : Bool) (left values : Fragment V) : Fragment V :=
  .text "(" ++ .later (inParentheses values)
    (left ++ .text (if negated then " NOT IN " else " IN ")) ++ .text ")"

def logical (op : LogicalOp) (items : List (Fragment V)) : Fragment V :=
  if items.isEmpty then .text (match op with | .and => "1=1" | .or => "1=0")
  else inParentheses (joined (match op with | .and => " AND " | .or => " OR ") items)

def Special.isNone : Special V → Bool
  | .none => true
  | _ => false

def Special.isRaw : Special V → Bool
  | .raw _ => true
  | _ => false

/-- With `IGNORE NULLS` the call is put together a second time from the arguments compiled
before, and what follows them is compiled again. -/
def callBody (name : String) (args : List (Fragment V)) (distinct omitParens ignoreNulls : Bool)
    (isNone isRaw : Bool) (special : Fragment V) : Fragment V :=
  let argsSql := (if distinct then .text "DISTINCT " else .text "") ++ joined ", " args
  if ignoreNulls && !args.isEmpty then
    if !isNone && !isRaw then
      .text (name ++ "(") ++ argsSql ++ .dropped special ++ special ++ .text " IGNORE NULLS)"
    else
      .text (name ++ "(") ++ argsSql ++ .dropped special ++ .text " IGNORE NULLS)"
  else if omitParens && args.isEmpty && isNone then .text name
  else .text (name ++ "(") ++ argsSql ++ special ++ .text ")"

def clause (keyword : String) (items : List (Fragment V)) : List (Fragment V) :=
  omittedIf items.isEmpty [.text keyword ++ joined ", " items]

def windowClauses (partitionBy orderBy frame : List (Fragment V)) : Fragment V :=
  joined " " (clause "PARTITION BY " partitionBy ++ clause "ORDER BY " orderBy ++ frame)

/-- The parts and the alternative are compiled before the base that stands in front of them. -/
def caseExpr (base : Option (Fragment V)) (parts : List (Fragment V))
    (otherwise : Option (Fragment V)) : Fragment V :=
  let alternatives := joined " " parts ++
    (match otherwise with | some sql => .text " ELSE " ++ sql | none => .text "")
  .text "CASE " ++ .later alternatives
    (match base with | some sql => sql ++ .text " " | none => .text "") ++ .text " END"

def optional (keyword : String) : Option (Fragment V) → List (Fragment V)
  | some fragment => [.text keyword ++ fragment]
  | none => []

def assertion (condition : Bool) (message : String) (fragment : Fragment V) : Fragment V :=
  (if condition then .text "" else .fail message) ++ fragment

def insertPrefix : InsertMode → String
  | .replace => "INSERT OR REPLACE INTO "
  | .ignore => "INSERT OR IGNORE INTO "
  | .plain => "INSERT INTO "

def insertSource (selectQuery : Option (Fragment V)) (rows : List (Fragment V)) : Fragment V :=
  match selectQuery with
  | some sql => sql
  | none => .text "VALUES " ++ joined ", " rows

def header (statement : String) (ifNotExists : Bool) : String :=
  statement ++ (if ifNotExists then " IF NOT EXISTS " else " ")

def tableBody (selectQuery : Option (Fragment V)) (definitions : List (Fragment V))
    (suffix : String) : Fragment V :=
  match selectQuery with
  | some sql => .text " AS " ++ sql
  | none =>
    assertion (!definitions.isEmpty) "create-table query requires columns or constraints"
      (.text " (" ++ joined ", " definitions ++ .text suffix)

def conflictTarget (target : List (Fragment V)) : Fragment V :=
  if target.isEmpty then .text "" else inParentheses (joined ", " target)

/-! ## The compiler -/

mutual

def compileExpr : Expr V → Fragment V
  | .raw sql => .text sql
  | .literal value => .value value none
  | .param value name => .value value name
  | .placeholder kind placeholder => placeholderTerm placeholder kind
  | .table table => .text table.sql
  | .schema schema => .text schema.sql
  | .field table name aliasName => .text (aliased (fieldSql table name) aliasName)
  | .star table => .text (starSql table)
  | .aliased expr aliasName => compileExpr expr ++ .text (" AS " ++ quoteIdent aliasName)
  | .binary op left right =>
    .text "(" ++ compileExpr left ++ .text " " ++ binaryOp op ++ .text " " ++ compileExpr right ++
      .text ")"
  | .unary .not expr => .text "(NOT " ++ compileExpr expr ++ .text ")"
  | .unary .neg expr => .text "(-" ++ compileExpr expr ++ .text ")"
  | .logical op items => logical op (compileExprs items)
  | .inValues negated left values =>
    membership negated (compileExpr left) (joined ", " (compileExprs values))
  | .inExpr negated left values => membership negated (compileExpr left) (compileExpr values)
  | .between value low high =>
    .text "(" ++ compileExpr value ++ .text " BETWEEN " ++ compileExpr low ++ .text " AND " ++
      compileExpr high ++ .text ")"
  | .unsupported form => .fail (unsupportedMessage form)
  | .isNull negated expr =>
    .text "(" ++ compileExpr expr ++ .text (if negated then " IS NOT NULL)" else " IS NULL)")
  | .exists query => .text "EXISTS (" ++ compileQuery query ++ .text ")"
  | .excludedField name => .text ("excluded." ++ quoteIdent name)
  | .tuple values => inParentheses (joined ", " (compileExprs values))
  | .extract part field =>
    .text "EXTRACT(" ++ compileExpr part ++ .text " FROM " ++ compileExpr field ++ .text ")"
  | .call name args distinct omitParens ignoreNulls special filters windowed partitionBy
      windowOrderBy windowFrame =>
    let body := callBody name (compileExprs args) distinct omitParens ignoreNulls special.isNone
      special.isRaw (compileFunctionSpecial special)
    let filtered := if filters.isEmpty then body
      else body ++ .text " FILTER(WHERE " ++ logical .and (compileFilters filters) ++ .text ")"
    if windowed then
      filtered ++ .text " OVER(" ++ windowClauses (compileExprs partitionBy)
        (compileOrderItems windowOrderBy) (compileFrame windowFrame) ++ .text ")"
    else filtered
  | .case base parts otherwise =>
    caseExpr (compileOption base) (compileParts base.isSome parts) (compileOption otherwise)
  | .over expr partitionBy orderBy frame =>
    .later (windowClauses (compileExprs partitionBy) (compileOrderItems orderBy)
      (frame.toList.map .text)) (compileExpr expr ++ .text " OVER (") ++ .text ")"
  | .query _ => .fail "unsupported expression tag query"

def compileExprs : List (Expr V) → List (Fragment V)
  | [] => []
  | expr :: rest => compileExpr expr :: compileExprs rest

def compileOption : Option (Expr V) → Option (Fragment V)
  | none => none
  | some expr => some (compileExpr expr)

def compileOrderItems : List (OrderItem V) → List (Fragment V)
  | [] => []
  | .mk expr desc :: rest =>
    (compileExpr expr ++ .text (if desc then " DESC" else " ASC")) :: compileOrderItems rest

def compileParts (based : Bool) : List (CasePart V) → List (Fragment V)
  | [] => []
  | .mk condition whenValue result :: rest =>
    (.text "WHEN " ++ (if based then compileExpr whenValue else compileExpr condition) ++
      .text " THEN " ++ compileExpr result) :: compileParts based rest

def compileFunctionSpecial : Special V → Fragment V
  | .none => .text ""
  | .asType type => .text " AS " ++ compileExpr type
  | .asTypeName type => .text (" AS " ++ type.toUpper)
  | .using encoding => .text (" USING " ++ encoding)
  | .raw sql => .text (" " ++ sql)
  | .other => .text ""

def compileFrameBound : FrameBound V → Fragment V
  | .edge value modifier => .text (value.getD "UNBOUNDED" ++ " " ++ modifier)
  | .expr expr => compileExpr expr
  | .text text => .text text

def compileFrame : Frame V → List (Fragment V)
  | .none => []
  | .from kind bound => [.text (kind ++ " ") ++ compileFrameBound bound]
  | .between kind bound andBound =>
    [.text (kind ++ " BETWEEN ") ++ compileFrameBound bound ++ .text " AND " ++
      compileFrameBound andBound]

/-- `and_` takes the items of a conjunction among the filters for filters of their own. -/
def compileFilters : List (Expr V) → List (Fragment V)
  | [] => []
  | .logical .and items :: rest => compileExprs items ++ compileFilters rest
  | expr :: rest => compileExpr expr :: compileFilters rest

def compileColumn : Column V → Fragment V
  | .name name => .text (quoteIdent name)
  | .expr expr => compileExpr expr

def compileColumns : List (Column V) → List (Fragment V)
  | [] => []
  | column :: rest => compileColumn column :: compileColumns rest

def compileSets : List (SetItem V) → List (Fragment V)
  | [] => []
  | .mk field value :: rest =>
    (compileColumn field ++ .text " = " ++ compileExpr value) :: compileSets rest

def compileCtes : List (Cte V) → List (Fragment V)
  | [] => []
  | .mk name query :: rest =>
    (.text (quoteIdent name ++ " AS (") ++ compileQuery query ++ .text ")") :: compileCtes rest

def compileJoinCondition : JoinCondition V → Fragment V
  | .none => .text ""
  | .on criterion => .text " ON " ++ compileExpr criterion
  | .using fields => .text (" USING (" ++ quoted fields ++ ")")

def compileJoins : List (Join V) → List (Fragment V)
  | [] => []
  | .mk kind table condition :: rest =>
    (.text (joinKeyword kind ++ " ") ++ compileExpr table ++ compileJoinCondition condition) ::
      compileJoins rest

def compileSetOps (sql : Fragment V) : List (SetOp V) → Fragment V
  | [] => sql
  | .mk kind query :: rest =>
    compileSetOps (.text "(" ++ sql ++ .text (") " ++ setOpKeyword kind ++ " (") ++
      compileQuery query ++ .text ")") rest

def compileRows : List (List (Expr V)) → List (Fragment V)
  | [] => []
  | row :: rest => inParentheses (joined ", " (compileExprs row)) :: compileRows rest

/-- A conflict without an action has its target compiled and writes nothing. -/
def compileConflict : Conflict V → Fragment V
  | .none => .text ""
  | .pending target => .dropped (conflictTarget (compileColumns target))
  | .doNothing target =>
    .text " ON CONFLICT" ++ conflictTarget (compileColumns target) ++ .text " DO NOTHING"
  | .doUpdate target sets criterion =>
    .text " ON CONFLICT" ++ conflictTarget (compileColumns target) ++
      assertion (!sets.isEmpty) "insert on-conflict do-update requires at least one set"
        (.text " DO UPDATE SET " ++ joined ", " (compileSets sets)) ++
      joined "" (optional " WHERE " (compileOption criterion))

def compileReferences : References V → Fragment V
  | .mk table columns onDelete onUpdate =>
    .text "REFERENCES " ++ compileExpr table ++ .text (" (" ++ quoted columns ++ ")" ++
      (onDelete.map (" ON DELETE " ++ ·)).getD "" ++ (onUpdate.map (" ON UPDATE " ++ ·)).getD "")

def compileColumnDefinitions : List (ColumnDefinition V) → List (Fragment V)
  | [] => []
  | .mk name type nullable default primaryKey autoincrement unique check references :: rest =>
    joined " " ([.text (quoteIdent name)] ++ type.toList.map .text ++
      omittedIf (nullable != some false) [.text "NOT NULL"] ++
      omittedIf (nullable != some true) [.text "NULL"] ++
      optional "DEFAULT " (compileOption default) ++
      omittedIf (!primaryKey) [.text "PRIMARY KEY"] ++
      omittedIf (!autoincrement) [.text "AUTOINCREMENT"] ++
      omittedIf (!unique) [.text "UNIQUE"] ++
      (optional "CHECK " ((compileOption check).map inParentheses)) ++
      (compileReferencesOption references)) :: compileColumnDefinitions rest

def compileReferencesOption : Option (References V) → List (Fragment V)
  | none => []
  | some references => [compileReferences references]

def compileConstraints : List (TableConstraint V) → List (Fragment V)
  | [] => []
  | .primaryKey columns :: rest =>
    .text ("PRIMARY KEY (" ++ quoted columns ++ ")") :: compileConstraints rest
  | .unique columns :: rest =>
    .text ("UNIQUE (" ++ quoted columns ++ ")") :: compileConstraints rest
  | .check expr :: rest =>
    (.text "CHECK (" ++ compileExpr expr ++ .text ")") :: compileConstraints rest
  | .foreignKey columns references :: rest =>
    (.text ("FOREIGN KEY (" ++ quoted columns ++ ") ") ++ compileReferences references) ::
      compileConstraints rest

def compileQueryOption : Option (Query V) → Option (Fragment V)
  | none => none
  | some query => some (compileQuery query)

def compileQuery : Query V → Fragment V
  | .select ctes withRecursive distinct selects source joins criterion groupBy having orderBy limit
      offset forUpdate setOps =>
    compileSetOps (joined " " (
      omittedIf ctes.isEmpty [.text (if withRecursive then "WITH RECURSIVE " else "WITH ") ++
        joined ", " (compileCtes ctes)] ++
      [.text (if distinct then "SELECT DISTINCT " else "SELECT ") ++
        (if selects.isEmpty then .text "*" else joined ", " (compileExprs selects))] ++
      optional "FROM " (compileOption source) ++ compileJoins joins ++
      optional "WHERE " (compileOption criterion) ++
      clause "GROUP BY " (compileExprs groupBy) ++
      optional "HAVING " (compileOption having) ++
      clause "ORDER BY " (compileOrderItems orderBy) ++
      limit.toList.map (fun limit => .text ("LIMIT " ++ limit)) ++
      offset.toList.map (fun offset => .text ("OFFSET " ++ offset)) ++
      omittedIf (!forUpdate) [.text "FOR UPDATE"])) setOps
  | .insert into mode columns rows selectQuery conflict returning =>
    assertion into.isSome "insert query requires table"
      (joined " " (optional (insertPrefix mode) (compileOption into) ++
        omittedIf columns.isEmpty [.text ("(" ++ quoted columns ++ ")")] ++
        [assertion (!rows.isEmpty || selectQuery.isSome)
            "insert query requires values rows or a select query"
          (assertion (!(!rows.isEmpty && selectQuery.isSome))
              "insert query cannot mix values rows with select query"
            (insertSource (compileQueryOption selectQuery) (compileRows rows)))])) ++
      compileConflict conflict ++
      joined "" (clause " RETURNING " (compileExprs returning))
  | .update table sets criterion returning =>
    assertion table.isSome "update query requires table"
      (assertion (!sets.isEmpty) "update query requires at least one set"
        (joined " " (optional "UPDATE " (compileOption table) ++
          [.text "SET " ++ joined ", " (compileSets sets)] ++
          optional "WHERE " (compileOption criterion) ++
          clause "RETURNING " (compileExprs returning))))
  | .delete source criterion returning =>
    assertion source.isSome "delete query requires table"
      (joined " " (optional "DELETE FROM " (compileOption source) ++
        optional "WHERE " (compileOption criterion) ++
        clause "RETURNING " (compileExprs returning)))
  | .createTable table temporary ifNotExists selectQuery columns constraints withoutRowid strict =>
    .text (header (if temporary then "CREATE TEMP TABLE" else "CREATE TABLE") ifNotExists) ++
      compileExpr table ++
      tableBody (compileQueryOption selectQuery)
        (compileColumnDefinitions columns ++ compileConstraints constraints)
        (")" ++ (if withoutRowid then " WITHOUT ROWID" else "") ++
          (if strict then " STRICT" else ""))
  | .createIndex name unique ifNotExists table columns criterion =>
    assertion table.isSome "create-index query requires table"
      (assertion (!columns.isEmpty) "create-index query requires columns"
        (.text (header (if unique then "CREATE UNIQUE INDEX" else "CREATE INDEX") ifNotExists ++
            quoteIdent name) ++
          .later (inParentheses (joined ", " (compileColumns columns)))
            (joined "" (optional " ON " (compileOption table)) ++ .text " ") ++
          joined "" (optional " WHERE " (compileOption criterion))))
  | .createView view temporary ifNotExists selectQuery =>
    assertion selectQuery.isSome "create-view query requires select query"
      (.text (header (if temporary then "CREATE TEMP VIEW" else "CREATE VIEW") ifNotExists) ++
        compileExpr view ++ joined "" (optional " AS " (compileQueryOption selectQuery)))
  | .drop kind ifExists target =>
    .text ("DROP " ++ (match kind with | .table => "TABLE" | .view => "VIEW" | .index => "INDEX") ++
      " " ++ (if ifExists then "IF EXISTS " else "") ++ target.sql)

end

structure Compiled (V : Type) where
  pieces : List (Piece V)
  params : List V
  named : String → Option V

def Compiled.sql (compiled : Compiled V) : String := String.join (compiled.pieces.map Piece.sql)

def Query.compile (query : Query V) (paramStyle : ParamStyle) : Except String (Compiled V) := do
  let (pieces, state) ← (compileQuery query).run { paramStyle }
  return ⟨pieces, state.params, state.named⟩

end Space2.Sql
