import Mathlib
import Space2.Base.LuaValue
import Space2.Base.Raising
import Space2.Base.TableSort

/-!
# The store of conversations

A conversation, an item and the links of a conversation are JSON files of three
directories. Each kind has a cache of records that are changed in place and then saved.
-/
namespace Space2.Conversations
open Base

abbrev Fields := List (String × Lua)

abbrev Table (α : Type) := AList fun _ : String => α

/-- `item_seq` is a 64-bit integer; the other fields are read dynamically. -/
structure Conversation where
  id : String
  itemSeq : Int
  fields : Fields

structure Item where
  id : String
  fields : Fields

structure Link where
  id : String
  type : Option Lua
  order : Int

/-- What the store relies on: `reread` answers what is read back of a value that is
written as JSON. -/
structure Env where
  root : String
  cwd : String
  defaultCwd : Option Lua
  tostring : Lua → String
  reread : Lua → Except String Lua

structure Store where
  conversationFiles : Table Conversation
  messageFiles : Table Item
  linkFiles : Table (List Link)
  conversations : Table Conversation
  messages : Table Item
  links : Table (List Link)
  activeConversationId : Option String

abbrev StoreOp (α : Type) := Op Store α

/-! ## Fields -/

/-- `(or value default)` -/
def either (value : Option Lua) (default : Lua) : Lua :=
  match value with
  | none => default
  | some (.boolean false) => default
  | some given => given

def truthy : Option Lua → Bool
  | none => false
  | some (.boolean false) => false
  | some _ => true

def isText (value : Option Lua) (text : String) : Bool :=
  match value with
  | some (.string given) => given = text
  | _ => false

def setAll (updates : Fields) (fields : Fields) : Fields :=
  updates.foldl (fun fields update => Lua.insertField update.1 update.2 fields) fields

def ensureField (key : String) (default : Lua) (fields : Fields) : Fields :=
  if truthy (fields.lookup key) then fields else Lua.insertField key default fields

/-- A field that is only there when it is given. -/
def given (key : String) (value : Option Lua) : Fields := value.toList.map fun v => (key, v)

def seconds (now : Int) : Lua := .number (.finite now)

namespace Env

def conversationPath (env : Env) (id : String) : String :=
  env.root ++ "/conversations/" ++ id ++ ".json"

def messagePath (env : Env) (id : String) : String := env.root ++ "/messages/" ++ id ++ ".json"

def write (env : Env) (fields : Fields) : Except String Fields :=
  fields.mapM fun field => do
    let value ← env.reread field.2
    pure (field.1, value)

def writeLink (env : Env) (link : Link) : Except String Link :=
  match link.type with
  | none => pure link
  | some type => do
    let value ← env.reread type
    pure { link with type := some value }

/-- What `load-conversation` makes of a record it reads. -/
def normalize (env : Env) (fields : Fields) : Fields :=
  let fields := ensureField "provider" (.string "openai") fields
  let fields :=
    if isText (fields.lookup "provider") "zai" then
      Lua.insertField "model" (.string "glm-4.7") fields
    else fields
  let fields :=
    if isText (fields.lookup "provider") "openai" && isText (fields.lookup "model") "glm-4.7" then
      Lua.insertField "model" (.string "gpt-4o-mini") fields
    else fields
  let fields := ensureField "cwd" (.string env.cwd) fields
  let fields := ensureField "reasoning_effort" (.string "none") fields
  ensureField "text_verbosity" (.string "medium") fields

end Env

/-! ## Loading and saving -/

variable (env : Env)

def loadConversation (id : String) : StoreOp Conversation := do
  let s ← Op.get
  match s.conversations.lookup id with
  | some record => pure record
  | none =>
    match s.conversationFiles.lookup id with
    | none => Op.raise ("fs.read_file: unable to open " ++ env.conversationPath id)
    | some data =>
      let record := { data with fields := env.normalize data.fields }
      Op.modify fun s => { s with conversations := s.conversations.insert id record }
      pure record

def loadMessage (id : String) : StoreOp Item := do
  let s ← Op.get
  match s.messages.lookup id with
  | some record => pure record
  | none =>
    match s.messageFiles.lookup id with
    | none => Op.raise ("fs.read_file: unable to open " ++ env.messagePath id)
    | some record =>
      Op.modify fun s => { s with messages := s.messages.insert id record }
      pure record

def loadLinks (id : String) : StoreOp (List Link) := do
  let s ← Op.get
  match s.links.lookup id with
  | some items => pure items
  | none =>
    let items := (s.linkFiles.lookup id).getD []
    Op.modify fun s =>
      { s with
        linkFiles := if (s.linkFiles.lookup id).isSome then s.linkFiles else s.linkFiles.insert id []
        links := s.links.insert id items }
    pure items

def saveConversation (record : Conversation) : StoreOp Unit := do
  let fields ← Op.ofExcept (env.write record.fields)
  Op.modify fun s =>
    { s with conversationFiles := s.conversationFiles.insert record.id { record with fields } }

def saveMessage (record : Item) : StoreOp Unit := do
  let fields ← Op.ofExcept (env.write record.fields)
  Op.modify fun s => { s with messageFiles := s.messageFiles.insert record.id { record with fields } }

def saveLinks (id : String) (items : List Link) : StoreOp Unit := do
  let written ← Op.ofExcept (items.mapM env.writeLink)
  Op.modify fun s => { s with linkFiles := s.linkFiles.insert id written }

/-! ## Conversations -/

def Conversation.archived (record : Conversation) : Bool :=
  (match record.fields.lookup "archived" with
    | some (.boolean true) => true
    | _ => false) || (record.fields.lookup "archived_at").isSome

/-- The listing of a directory leaves out names that start with a dot, and does not
descend. -/
def listed (id : String) : Bool :=
  (id ++ ".json").toList.head? ≠ some '.' && !id.toList.contains '/'

def Conversation.updatedAt (record : Conversation) : Lua :=
  either (record.fields.lookup "updated_at") (seconds 0)

/-- Lua compares two numbers or two strings. -/
def comparable (records : List Conversation) : Bool :=
  decide (records.length ≤ 1) ||
    records.all (fun record => match record.updatedAt with | .number _ => true | _ => false) ||
    records.all (fun record => match record.updatedAt with | .string _ => true | _ => false)

def later (first second : Conversation) : Bool :=
  match first.updatedAt, second.updatedAt with
  | .number (.finite a), .number (.finite b) => a > b
  | .string a, .string b => b < a
  | _, _ => false

def listConversations (includeArchived : Bool) : StoreOp (List Conversation) := do
  let s ← Op.get
  let read := (s.conversationFiles.entries.filter fun file => listed file.1).map Sigma.snd
  Op.modify fun s =>
    { s with conversations := read.foldl (fun kept data => kept.insert data.id data) s.conversations }
  let items := read.filter fun data => includeArchived || !data.archived
  Op.require (comparable items = true) "attempt to compare two incomparable values"
  pure (tableSort later items)

/-- `get-conversation` -/
def getConversation (id : String) : StoreOp Conversation := loadConversation env id

def created (options : Fields) (itemSeq : Option Int) (id : String) (now : Int) :
    Except String Conversation := do
  let provider := either (options.lookup "provider") (.string "openai")
  let model ←
    if isText (some provider) "zai" then
      if truthy (options.lookup "model") && !isText (options.lookup "model") "glm-4.7" then
        throw ("Unsupported ZAI model: " ++ ((options.lookup "model").map env.tostring).getD "nil")
      else pure (Lua.string "glm-4.7")
    else pure (either (options.lookup "model") (.string "gpt-4o-mini"))
  pure {
    id := id
    itemSeq := itemSeq.getD 0
    fields :=
      [("name", either (options.lookup "name") (.string "")),
        ("provider", provider),
        ("model", model),
        ("temperature", (options.lookup "temperature").getD (seconds 0)),
        ("reasoning_effort", either (options.lookup "reasoning_effort") (.string "none")),
        ("text_verbosity", either (options.lookup "text_verbosity") (.string "medium"))] ++
      given "max_tool_rounds" (options.lookup "max_tool_rounds") ++
      [("tools", either (options.lookup "tools") Lua.empty),
        ("cwd", either (options.lookup "cwd") (either env.defaultCwd (.string env.cwd))),
        ("archived", .boolean false),
        ("created_at", either (options.lookup "created-at") (seconds now)),
        ("updated_at", either (options.lookup "updated-at") (seconds now))] }

def createConversation (options : Fields) (itemSeq : Option Int) (id : String) (now : Int) :
    StoreOp Conversation := do
  let record ← Op.ofExcept (created env options itemSeq id now)
  Op.modify fun s => { s with conversations := s.conversations.insert id record }
  saveConversation env record
  Op.modify fun s =>
    { s with activeConversationId := if s.activeConversationId = none then some id else s.activeConversationId }
  pure record

/-- The updates are those of fields other than `id` and `item_seq`. -/
def Conversation.updated (updates : Fields) (now : Int) (record : Conversation) : Conversation :=
  { record with
    fields := Lua.insertField "updated_at" (seconds now) (setAll updates record.fields) }

def updateConversation (id : String) (updates : Option Fields) (now : Int) :
    StoreOp Conversation := do
  let record ← getConversation env id
  let record := record.updated (updates.getD []) now
  Op.modify fun s => { s with conversations := s.conversations.insert id record }
  Op.require (updates ≠ none) "attempt to index a nil value (local 'updates')"
  saveConversation env record
  pure record

def Conversation.archive (now : Int) (record : Conversation) : Conversation :=
  { record with
    fields := Lua.insertField "archived_at" (seconds now)
      (Lua.insertField "archived" (.boolean true) record.fields) }

def archiveConversation (id : String) (now : Int) : StoreOp Conversation := do
  let record ← getConversation env id
  let record := record.archive now
  Op.modify fun s => { s with conversations := s.conversations.insert id record }
  saveConversation env record
  pure record

/-- The items that the other conversations use. -/
def usage (id : String) : List Conversation → StoreOp (List String)
  | [] => pure []
  | convo :: rest =>
    if convo.id = id then usage id rest
    else do
      let items ← loadLinks convo.id
      let others ← usage id rest
      pure (items.map Link.id ++ others)

def removeItem (id : String) (s : Store) : Store :=
  { s with messages := s.messages.erase id, messageFiles := s.messageFiles.erase id }

def removeConversation (id : String) (s : Store) : Store :=
  { s with
    links := s.links.erase id
    linkFiles := s.linkFiles.erase id
    conversations := s.conversations.erase id
    conversationFiles := s.conversationFiles.erase id
    activeConversationId :=
      if s.activeConversationId = some id then none else s.activeConversationId }

def deleteConversation (id : String) : StoreOp Conversation := do
  let record ← getConversation env id
  let items ← loadLinks id
  let convos ← listConversations true
  let used ← usage id convos
  Op.modify fun s =>
    (items.filter fun entry => entry.id ∉ used).foldl (fun s entry => removeItem entry.id s) s
  if id ≠ "" then Op.modify (removeConversation id)
  else pure ()
  pure record

/-! ## Items -/

def createdItem (options : Fields) (id : String) (now : Int) : Item where
  id := id
  fields :=
    given "parent_id" (options.lookup "parent-id") ++
    [("type", either (options.lookup "type") (.string "message"))] ++
    given "role" (options.lookup "role") ++
    [("content", either (options.lookup "content") (.string ""))] ++
    given "tool_name" (options.lookup "tool-name") ++
    given "tool_call_id" (options.lookup "tool-call-id") ++
    [("tools", either (options.lookup "tools") Lua.empty)] ++
    given "response_id" (options.lookup "response-id") ++
    given "name" (options.lookup "name") ++
    given "call_id" (options.lookup "call-id") ++
    given "arguments" (options.lookup "arguments") ++
    given "output" (options.lookup "output") ++
    given "last_usage" (options.lookup "last-usage") ++
    given "last_context_window" (options.lookup "last-context-window") ++
    given "last_model" (options.lookup "last-model") ++
    [("created_at", either (options.lookup "created-at") (seconds now)),
      ("updated_at", either (options.lookup "updated-at") (seconds now))]

def createItem (options : Fields) (id : String) (now : Int) : StoreOp Item := do
  let record := createdItem options id now
  Op.modify fun s => { s with messages := s.messages.insert id record }
  saveMessage env record
  pure record

def normalizeKey (key : String) : String :=
  if key = "parent-id" then "parent_id"
  else if key = "tool-name" then "tool_name"
  else if key = "tool-call-id" then "tool_call_id"
  else if key = "response-id" then "response_id"
  else if key = "call-id" then "call_id"
  else if key = "last-usage" then "last_usage"
  else if key = "last-context-window" then "last_context_window"
  else if key = "last-model" then "last_model"
  else key

/-- An update of the id, which is a string, or of another field. -/
inductive ItemUpdate where
  | id (value : String)
  | field (key : String) (value : Lua)

def ItemUpdate.apply (record : Item) : ItemUpdate → Item
  | id value => { record with id := value }
  | field key value =>
    { record with fields := Lua.insertField (normalizeKey key) value record.fields }

def Item.updated (updates : List ItemUpdate) (now : Int) (record : Item) : Item :=
  let record := updates.foldl ItemUpdate.apply record
  { record with fields := Lua.insertField "updated_at" (seconds now) record.fields }

def updateItem (id : String) (updates : List ItemUpdate) (now : Int) : StoreOp Item := do
  let record ← loadMessage env id
  let record := record.updated updates now
  Op.modify fun s => { s with messages := s.messages.insert id record }
  saveMessage env record
  pure record

/-- `(+ seq 1)` on 64-bit integers -/
def increment (seq : Int) : Int := if seq = 2 ^ 63 - 1 then -2 ^ 63 else seq + 1

def linkItem (conversationId : String) (item : Item) : StoreOp Unit := do
  let convo ← getConversation env conversationId
  let items ← loadLinks convo.id
  if items.any (fun entry => entry.id = item.id) then pure ()
  else do
    let convo := { convo with itemSeq := increment convo.itemSeq }
    let items := items ++ [{ id := item.id, type := item.fields.lookup "type", order := convo.itemSeq }]
    Op.modify fun s =>
      { s with
        conversations := s.conversations.insert conversationId convo
        links := s.links.insert convo.id items }
    saveLinks env convo.id items
    saveConversation env convo

def Item.ordered (order : Int) (record : Item) : Item :=
  { record with fields := Lua.insertField "order" (.number (.finite order)) record.fields }

/-- The records at the links, each with the order of its link. -/
def resolve : List Link → StoreOp (List Item)
  | [] => pure []
  | entry :: rest => do
    let record ← loadMessage env entry.id
    let record := record.ordered entry.order
    Op.modify fun s => { s with messages := s.messages.insert entry.id record }
    let others ← resolve rest
    pure (record :: others)

def listConversationItems (id : String) : StoreOp (List Item) := do
  let items ← loadLinks id
  let items := tableSort (fun a b => decide (a.order < b.order)) items
  Op.modify fun s => { s with links := s.links.insert id items }
  resolve env items

/-! ## Stores -/

def Store.empty : Store where
  conversationFiles := ∅
  messageFiles := ∅
  linkFiles := ∅
  conversations := ∅
  messages := ∅
  links := ∅
  activeConversationId := none

/-- Another store of the same directories. -/
def Store.reopen (s : Store) : Store :=
  { s with conversations := ∅, messages := ∅, links := ∅, activeConversationId := none }

end Space2.Conversations
