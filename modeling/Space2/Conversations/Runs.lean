import Space2.Conversations.Changes

/-!
# Runs of the store

Beside the store stand the items linked to each conversation, in the order in which they
were linked since it was last deleted.
-/
namespace Space2.Conversations
open Base Base.Op

inductive Action where
  | createConversation (options : Fields) (itemSeq : Option Int) (id : String) (now : Int)
  | updateConversation (id : String) (updates : Option Fields) (now : Int)
  | archiveConversation (id : String) (now : Int)
  | deleteConversation (id : String)
  | listConversations (includeArchived : Bool)
  | getConversation (id : String)
  | createItem (options : Fields) (id : String) (now : Int)
  | updateItem (id : String) (updates : List ItemUpdate) (now : Int)
  | linkItem (conversationId : String) (item : Item)
  | listConversationItems (id : String)
  | reopen

/-- The id is the name of a file. -/
def plain (id : String) : Prop := '/' ∉ id.toList

instance (id : String) : Decidable (plain id) := inferInstanceAs (Decidable ('/' ∉ id.toList))

namespace Action

def run (env : Env) : Action → StoreOp Unit
  | createConversation options itemSeq id now => do
    let _ ← Conversations.createConversation env options itemSeq id now
  | updateConversation id updates now => do
    let _ ← Conversations.updateConversation env id updates now
  | archiveConversation id now => do
    let _ ← Conversations.archiveConversation env id now
  | deleteConversation id => do
    let _ ← Conversations.deleteConversation env id
  | listConversations includeArchived => do
    let _ ← Conversations.listConversations includeArchived
  | getConversation id => do
    let _ ← Conversations.getConversation env id
  | createItem options id now => do
    let _ ← Conversations.createItem env options id now
  | updateItem id updates now => do
    let _ ← Conversations.updateItem env id updates now
  | linkItem conversationId item => Conversations.linkItem env conversationId item
  | listConversationItems id => do
    let _ ← Conversations.listConversationItems env id
  | reopen => Op.modify Store.reopen

def answered (env : Env) (action : Action) (s : Store) : Bool :=
  match (action.run env s).1 with
  | .ok _ => true
  | .error _ => false

/-- Ids are the names of files, and those of conversations are not hidden. What is
written is read back as it was, an item keeps its id, and what is linked exists and gets
a larger order than what is linked already. A store is opened on conversations that lack
none of the fields that are filled in. -/
def Allowed (env : Env) (s : Store) : Action → Prop
  | createConversation options itemSeq id now =>
    listed id = true ∧ ∀ record, created env options itemSeq id now = .ok record →
      Kept env record.fields
  | updateConversation id updates now =>
    plain id ∧ ∀ record, s.conversationFiles.lookup id = some record →
      ∃ given, updates = some given ∧ Kept env (record.updated given now).fields
  | archiveConversation id now =>
    plain id ∧ ∀ record, s.conversationFiles.lookup id = some record →
      Kept env (record.archive now).fields
  | deleteConversation id => plain id
  | listConversations _ => True
  | getConversation id => plain id
  | createItem options id now =>
    plain id ∧ ∃ written, env.write (createdItem options id now).fields = .ok written
  | updateItem id updates now =>
    plain id ∧ ∀ record, (s.messages.lookup id <|> s.messageFiles.lookup id) = some record →
      (∀ value, ItemUpdate.id value ∈ updates → value = id) ∧
        ∃ written, env.write (record.updated updates now).fields = .ok written
  | linkItem conversationId item =>
    plain conversationId ∧ ∀ record, s.conversationFiles.lookup conversationId = some record →
      item.id ∉ (s.itemsOf conversationId).map Link.id →
        item.id ∈ s.messageFiles ∧
        (∀ link ∈ s.itemsOf conversationId, link.order < increment record.itemSeq) ∧
        ∀ type, item.fields.lookup "type" = some type → env.reread type = .ok type
  | listConversationItems id => plain id
  | reopen => ∀ id record, s.conversationFiles.lookup id = some record →
      env.normalize record.fields = record.fields

end Action

structure Tracked where
  store : Store
  linked : String → List String

def follow (action : Action) (answered : Bool) (linked : String → List String) :
    String → List String :=
  match action with
  | .linkItem conversationId item =>
    if answered = true ∧ item.id ∉ linked conversationId then
      Function.update linked conversationId (linked conversationId ++ [item.id])
    else linked
  | .deleteConversation id => if answered = true then Function.update linked id [] else linked
  | _ => linked

namespace Tracked

def step (env : Env) (w : Tracked) (action : Action) : Tracked where
  store := (action.run env w.store).2
  linked := follow action (action.answered env w.store) w.linked

def initial : Tracked where
  store := Store.empty
  linked _ := []

/-- What a conversation lists, and what is read of one before and after a listing. -/
structure Promised (env : Env) (w : Tracked) : Prop where
  lists : ∀ id ∈ w.store.conversationFiles, ∃ records,
    (listConversationItems env id w.store).1 = .ok records ∧
      records.map Item.id = w.linked id ∧ (w.linked id).Nodup ∧
      (∀ item ∈ w.linked id, item ∈ w.store.messageFiles) ∧
      ∃ orders : List Int, orders.Pairwise (· < ·) ∧
        records.map (fun record => record.fields.lookup "order") =
          orders.map fun order => some (.number (.finite order))
  gets : ∀ id includeArchived,
    (getConversation env id (listConversations includeArchived w.store).2).1 =
      (getConversation env id w.store).1

/-- A deletion removes the items of the conversation that no other one links. -/
def RemovesUnused (env : Env) (w : Tracked) : Action → Prop
  | .deleteConversation id =>
    (Action.deleteConversation id).answered env w.store = true → ∀ item,
      item ∈ (w.step env (.deleteConversation id)).store.messageFiles ↔
        item ∈ w.store.messageFiles ∧ ¬ (item ∈ w.linked id ∧
          ∀ other ∈ w.store.conversationFiles, other ≠ id → item ∉ w.linked other)
  | _ => True

end Tracked

variable {env : Env} {s t : Store}

/-! ## Calls that read -/

theorem Consistent.gets (h : Consistent env s) (id : String) (includeArchived : Bool) :
    (getConversation env id (listConversations includeArchived s).2).1 =
      (getConversation env id s).1 := by
  have hread : Reading env s (listConversations includeArchived s).2 :=
    (ensures_listConversations env s includeArchived).left (fun _ _ ht => ht.1) (fun _ ht => ht)
      ⟨h, .refl s⟩
  cases hfile : s.conversationFiles.lookup id with
  | some record =>
    obtain ⟨t, hbefore, -, -⟩ := h.load hfile
    have hsame : (listConversations includeArchived s).2.conversationFiles.lookup id = some record := by
      rw [hread.2.conversationFiles]
      exact hfile
    obtain ⟨u, hafter, -, -⟩ := hread.1.load hsame
    rw [hbefore, hafter]
  | none =>
    have hmissing : ∀ t, Reading env s t → (getConversation env id t).1 =
        .error ("fs.read_file: unable to open " ++ env.conversationPath id) := by
      intro t ht
      have hnone : t.conversationFiles.lookup id = none := by
        rw [ht.2.conversationFiles]
        exact hfile
      unfold getConversation loadConversation
      rw [get_bind_run]
      cases hcached : t.conversations.lookup id with
      | some record =>
        have hstored := ht.1.cached id record hcached
        rw [hnone] at hstored
        cases hstored
      | none =>
        rw [hnone]
        rfl
    rw [hmissing _ hread, hmissing s ⟨h, .refl s⟩]

/-- What every call that is allowed keeps, and what it does to the links. -/
structure Followed (env : Env) (s : Store) (action : Action) : Prop where
  consistent : Consistent env (action.run env s).2
  linked : ∀ id, ((action.run env s).2.itemsOf id).map Link.id =
    follow action (action.answered env s) (fun id => (s.itemsOf id).map Link.id) id

theorem Followed.of_reading {action : Action} (h : Reading env s (action.run env s).2)
    (hfollow : ∀ linked, follow action (action.answered env s) linked = linked) :
    Followed env s action := by
  refine ⟨h.1, fun id => ?_⟩
  rw [hfollow, h.2.itemsOf]

theorem answered_of_ok (action : Action) {t : Store} (h : action.run env s = (.ok (), t)) :
    action.answered env s = true := by
  unfold Action.answered
  rw [h]

theorem answered_of_error (action : Action) {t : Store} {message : String}
    (h : action.run env s = (.error message, t)) : action.answered env s = false := by
  unfold Action.answered
  rw [h]

theorem snd_unit {α : Type} (call : StoreOp α) (s : Store) :
    ((do let _ ← call : StoreOp Unit) s).2 = (call s).2 := by
  cases hrun : call s with
  | mk result t =>
    cases result with
    | ok a => rw [bind_ok hrun, pure_run]
    | error message => rw [bind_error hrun]

theorem ensures_reading {α : Type} {call : StoreOp α}
    (h : ∀ first, Ensures (Reading env first) call (fun _ => Reading env first) (Reading env first))
    (hs : Consistent env s) : Reading env s ((do let _ ← call : StoreOp Unit) s).2 := by
  rw [snd_unit]
  exact (h s).left (fun _ _ ht => ht) (fun _ ht => ht) ⟨hs, .refl s⟩

theorem followed_list (h : Consistent env s) (includeArchived : Bool) :
    Followed env s (.listConversations includeArchived) := by
  refine .of_reading (ensures_reading (fun first => ?_) h) fun _ => rfl
  exact (ensures_listConversations env first includeArchived).weaken (fun _ ht => ht)
    (fun _ _ ht => ht.1) fun _ ht => ht

theorem followed_get (h : Consistent env s) (id : String) : Followed env s (.getConversation id) := by
  refine .of_reading (ensures_reading (fun first => ?_) h) fun _ => rfl
  exact (ensures_getConversation first id).weaken (fun _ ht => ht) (fun _ _ ht => ht.1) fun _ ht => ht

theorem followed_listItems (h : Consistent env s) (id : String) :
    Followed env s (.listConversationItems id) := by
  refine .of_reading ?_ fun _ => rfl
  obtain ⟨records, t, hrun, -, hreading⟩ := h.listConversationItems id
  show Reading env s ((do let _ ← Conversations.listConversationItems env id : StoreOp Unit) s).2
  rw [snd_unit, hrun]
  exact hreading

theorem followed_reopen (h : Consistent env s) (hallowed : Action.reopen.Allowed env s) :
    Followed env s .reopen := by
  refine .of_reading ⟨?_, ⟨rfl, rfl, fun _ => rfl⟩⟩ fun _ => rfl
  refine ⟨h.named, h.visible, h.kept, fun id record hrecord _ => hallowed id record hrecord, ?_,
    h.itemNamed, ?_, ?_, h.linksKept, h.linked, h.owned⟩
  · intro id record hrecord
    cases hrecord
  · intro id record hrecord
    cases hrecord
  · intro id items hitems
    cases hitems

/-! ## Calls that put a record -/

theorem saveConversation_run {record : Conversation} (hkept : Kept env record.fields) (s : Store) :
    saveConversation env record s = (.ok (),
      { s with conversationFiles := s.conversationFiles.insert record.id record }) := by
  unfold saveConversation
  unfold Kept at hkept
  rw [hkept, ofExcept_ok_bind]
  rfl

/-- A call that leaves the links of every conversation. -/
theorem Followed.of_put {action : Action} (hleft : (action.run env s).2 = t)
    (ht : Consistent env t) (hitems : ∀ id, t.itemsOf id = s.itemsOf id)
    (hfollow : ∀ linked, follow action (action.answered env s) linked = linked) :
    Followed env s action := by
  refine ⟨hleft.symm ▸ ht, fun id => ?_⟩
  rw [hfollow, hleft, hitems]

theorem Followed.of_raise {action : Action} (h : Consistent env s)
    (hleft : (action.run env s).2 = s)
    (hfollow : ∀ linked, follow action (action.answered env s) linked = linked) :
    Followed env s action := .of_put hleft h (fun _ => rfl) hfollow

theorem id_created {options : Fields} {itemSeq : Option Int} {id : String} {now : Int}
    {record : Conversation} (h : created env options itemSeq id now = .ok record) :
    record.id = id := by
  unfold created at h
  dsimp only at h
  split_ifs at h with hzai hother
  · cases h
  · cases h
    rfl
  · cases h
    rfl

theorem followed_create (h : Consistent env s) {options : Fields} {itemSeq : Option Int}
    {id : String} {now : Int}
    (hallowed : (Action.createConversation options itemSeq id now).Allowed env s) :
    Followed env s (.createConversation options itemSeq id now) := by
  obtain ⟨hlisted, hkept⟩ := hallowed
  cases hcreated : created env options itemSeq id now with
  | error message =>
    refine .of_raise h ?_ fun _ => rfl
    show ((do let _ ← createConversation env options itemSeq id now : StoreOp Unit) s).2 = s
    unfold createConversation
    rw [snd_unit, hcreated, ofExcept_error_bind]
  | ok record =>
    have hid := id_created hcreated
    have hput := h.putConversation _ (hid ▸ hlisted) (hkept record hcreated)
    refine .of_put (t := { s.putConversation record with
      activeConversationId := if s.activeConversationId = none then some id
        else s.activeConversationId }) ?_ (hput.activate _) (fun _ => rfl) fun _ => rfl
    show ((do let _ ← createConversation env options itemSeq id now : StoreOp Unit) s).2 = _
    unfold createConversation
    rw [snd_unit, hcreated, ofExcept_ok_bind, modify_bind_run,
      bind_ok (saveConversation_run (hkept record hcreated) _), ← hid]
    rfl

theorem followed_update (h : Consistent env s) {id : String} {updates : Option Fields} {now : Int}
    (hallowed : (Action.updateConversation id updates now).Allowed env s) :
    Followed env s (.updateConversation id updates now) := by
  cases hfile : s.conversationFiles.lookup id with
  | none =>
    obtain ⟨message, hmissing⟩ := h.load_missing hfile
    refine .of_raise h ?_ fun _ => rfl
    show ((do let _ ← updateConversation env id updates now : StoreOp Unit) s).2 = s
    unfold updateConversation
    rw [snd_unit, bind_error hmissing]
  | some record =>
    obtain ⟨given, hgiven, hkept⟩ := hallowed.2 record hfile
    subst hgiven
    obtain ⟨t, hload, hreading, -⟩ := h.load hfile
    have hid := h.named id record hfile
    have hput := hreading.1.putConversation (record.updated given now) (by
      show listed record.id = true
      rw [hid]
      exact h.visible id (AList.lookup_isSome.1 (Option.isSome_of_eq_some hfile))) hkept
    refine .of_put ?_ hput hreading.2.itemsOf fun _ => rfl
    show ((do let _ ← updateConversation env id (some given) now : StoreOp Unit) s).2 = _
    unfold updateConversation
    rw [snd_unit, bind_ok hload, modify_bind_run, bind_ok (require_run (Option.some_ne_none _) _ _)]
    rw [Option.getD_some, bind_ok (saveConversation_run hkept _), ← hid]
    rfl

theorem followed_archive (h : Consistent env s) {id : String} {now : Int}
    (hallowed : (Action.archiveConversation id now).Allowed env s) :
    Followed env s (.archiveConversation id now) := by
  cases hfile : s.conversationFiles.lookup id with
  | none =>
    obtain ⟨message, hmissing⟩ := h.load_missing hfile
    refine .of_raise h ?_ fun _ => rfl
    show ((do let _ ← archiveConversation env id now : StoreOp Unit) s).2 = s
    unfold archiveConversation
    rw [snd_unit, bind_error hmissing]
  | some record =>
    have hkept := hallowed.2 record hfile
    obtain ⟨t, hload, hreading, -⟩ := h.load hfile
    have hid := h.named id record hfile
    have hput := hreading.1.putConversation (record.archive now) (by
      show listed record.id = true
      rw [hid]
      exact h.visible id (AList.lookup_isSome.1 (Option.isSome_of_eq_some hfile))) hkept
    refine .of_put ?_ hput hreading.2.itemsOf fun _ => rfl
    show ((do let _ ← archiveConversation env id now : StoreOp Unit) s).2 = _
    unfold archiveConversation
    rw [snd_unit, bind_ok hload, modify_bind_run, bind_ok (saveConversation_run hkept _), ← hid]
    rfl

/-! ## Items -/

theorem saveMessage_run {record : Item} {written : Fields} (hwritten : env.write record.fields = .ok written)
    (s : Store) : saveMessage env record s = (.ok (),
      { s with messageFiles := s.messageFiles.insert record.id { record with fields := written } }) := by
  unfold saveMessage
  rw [hwritten, ofExcept_ok_bind]
  rfl

theorem followed_createItem (h : Consistent env s) {options : Fields} {id : String} {now : Int}
    (hallowed : (Action.createItem options id now).Allowed env s) :
    Followed env s (.createItem options id now) := by
  obtain ⟨written, hwritten⟩ := hallowed.2
  have hput := h.putItem (createdItem options id now)
    { createdItem options id now with fields := written } rfl
  refine .of_put ?_ hput (fun _ => rfl) fun _ => rfl
  show ((do let _ ← createItem env options id now : StoreOp Unit) s).2 = _
  unfold createItem
  rw [snd_unit, modify_bind_run, bind_ok (saveMessage_run hwritten _)]
  rfl

theorem id_applied {updates : List ItemUpdate} {record : Item}
    (h : ∀ value, ItemUpdate.id value ∈ updates → value = record.id) :
    (updates.foldl ItemUpdate.apply record).id = record.id := by
  induction updates generalizing record with
  | nil => rfl
  | cons update updates ih =>
    have hfirst : (ItemUpdate.apply record update).id = record.id := by
      cases update with
      | id value => exact h value List.mem_cons_self
      | field key value => rfl
    rw [List.foldl_cons, ih fun value hvalue => ?_, hfirst]
    rw [hfirst]
    exact h value (List.mem_cons_of_mem _ hvalue)

theorem followed_updateItem (h : Consistent env s) {id : String} {updates : List ItemUpdate} {now : Int}
    (hallowed : (Action.updateItem id updates now).Allowed env s) :
    Followed env s (.updateItem id updates now) := by
  by_cases hfile : id ∈ s.messageFiles
  · obtain ⟨record, t, hload, hid, hreading, hfound⟩ := h.loadMessage hfile
    obtain ⟨hids, written, hwritten⟩ := hallowed.2 record hfound
    have hnamed : (record.updated updates now).id = id := by
      refine (id_applied fun value hvalue => ?_).trans hid
      rw [hid]
      exact hids value hvalue
    have hput := hreading.1.putItem (record.updated updates now) ⟨id, written⟩ hnamed.symm
    refine .of_put ?_ hput hreading.2.itemsOf fun _ => rfl
    show ((do let _ ← updateItem env id updates now : StoreOp Unit) s).2 = _
    unfold updateItem
    rw [snd_unit, bind_ok hload, modify_bind_run, bind_ok (saveMessage_run hwritten _)]
    unfold Store.putItem
    rw [hnamed]
    rfl
  · obtain ⟨message, hmissing⟩ := h.loadMessage_missing hfile
    refine .of_raise h ?_ fun _ => rfl
    show ((do let _ ← updateItem env id updates now : StoreOp Unit) s).2 = s
    unfold updateItem
    rw [snd_unit, bind_error hmissing]

/-! ## Links -/

theorem WellLinked.append {files : Table Item} {items : List Link} (h : WellLinked files items)
    {link : Link} (hnew : link.id ∉ items.map Link.id) (hexisting : link.id ∈ files)
    (hlast : ∀ other ∈ items, other.order < link.order) : WellLinked files (items ++ [link]) := by
  refine ⟨?_, ?_, ?_⟩
  · rw [List.map_append, List.nodup_append]
    refine ⟨h.distinct, List.nodup_singleton _, fun id hid other hother hsame => ?_⟩
    rw [List.map_singleton, List.mem_singleton] at hother
    exact hnew (hother ▸ hsame ▸ hid)
  · rw [List.pairwise_append]
    refine ⟨h.ascending, List.pairwise_singleton _ _, fun other hother last hlink => ?_⟩
    rw [List.mem_singleton.1 hlink]
    exact hlast other hother
  · intro other hother
    rcases List.mem_append.1 hother with hold | hlink
    · exact h.existing other hold
    · rw [List.mem_singleton.1 hlink]
      exact hexisting

theorem LinksKept.append {items : List Link} (h : LinksKept env items) {link : Link}
    (hlink : env.writeLink link = .ok link) : LinksKept env (items ++ [link]) := by
  unfold LinksKept at h ⊢
  rw [List.mapM_append, h]
  simp only [List.mapM_cons, hlink, List.mapM_nil]
  rfl

theorem saveLinks_run {id : String} {items : List Link} (hkept : LinksKept env items) (s : Store) :
    saveLinks env id items s = (.ok (), { s with linkFiles := s.linkFiles.insert id items }) := by
  unfold saveLinks
  unfold LinksKept at hkept
  rw [hkept, ofExcept_ok_bind]
  rfl

theorem plain_linked {items : List Link} {id : String} :
    items.any (fun entry => entry.id = id) = true ↔ id ∈ items.map Link.id := by
  rw [List.any_eq_true, List.mem_map]
  constructor
  · rintro ⟨link, hlink, hid⟩
    exact ⟨link, hlink, of_decide_eq_true hid⟩
  · rintro ⟨link, hlink, hid⟩
    exact ⟨link, hlink, decide_eq_true hid⟩

theorem followed_link (h : Consistent env s) {id : String} {item : Item}
    (hallowed : (Action.linkItem id item).Allowed env s) : Followed env s (.linkItem id item) := by
  cases hfile : s.conversationFiles.lookup id with
  | none =>
    obtain ⟨message, hmissing⟩ := h.load_missing hfile
    have hrun : linkItem env id item s = (.error message, s) := by
      unfold linkItem
      rw [bind_error hmissing]
    refine .of_raise h (congrArg Prod.snd hrun) fun linked => ?_
    have hraised := answered_of_error (.linkItem id item) hrun
    rw [hraised, follow, if_neg fun hboth => Bool.noConfusion hboth.1]
  | some record =>
    obtain ⟨t, hload, hreading, -⟩ := h.load hfile
    have hid := h.named id record hfile
    obtain ⟨u, hlinks, hread, -⟩ := hreading.1.loadLinks record.id
    have hboth := hreading.trans hread
    have hitems : t.itemsOf record.id = s.itemsOf id := by
      rw [hreading.2.itemsOf, hid]
    rw [hitems] at hlinks
    by_cases hknown : item.id ∈ (s.itemsOf id).map Link.id
    · have hrun : linkItem env id item s = (.ok (), u) := by
        unfold linkItem
        rw [bind_ok hload, bind_ok hlinks, if_pos (plain_linked.2 hknown)]
        rfl
      refine ⟨?_, fun other => ?_⟩
      · show Consistent env (linkItem env id item s).2
        rw [hrun]
        exact hboth.1
      · show ((linkItem env id item s).2.itemsOf other).map Link.id = _
        rw [hrun, hboth.2.itemsOf, follow, if_neg fun hnew => hnew.2 hknown]
    · obtain ⟨hexisting, hlast, htype⟩ := hallowed.2 record hfile hknown
      obtain ⟨link, hlink⟩ : ∃ link : Link, link =
          { id := item.id, type := item.fields.lookup "type", order := increment record.itemSeq } :=
        ⟨_, rfl⟩
      have hlinkId : link.id = item.id := congrArg Link.id hlink
      have hwritten : env.writeLink link = .ok link := by
        unfold Env.writeLink
        rw [hlink]
        cases hgiven : item.fields.lookup "type" with
        | none => rfl
        | some type =>
          dsimp only
          rw [htype type hgiven]
          rfl
      have hkept : LinksKept env (s.itemsOf id ++ [link]) := (itemsOf_kept h id).append hwritten
      have hlinked : WellLinked s.messageFiles (s.itemsOf id ++ [link]) := by
        refine (itemsOf_wellLinked h id).append ?_ ?_ ?_
        · rwa [hlinkId]
        · rwa [hlinkId]
        · rw [hlink]
          exact hlast
      obtain ⟨counted, hcounted⟩ : ∃ counted : Conversation,
          counted = { record with itemSeq := increment record.itemSeq } := ⟨_, rfl⟩
      have hcountedId : counted.id = id := (congrArg Conversation.id hcounted).trans hid
      have hconversation : Kept env counted.fields := by
        rw [hcounted]
        exact h.kept id record hfile
      have hpresent : id ∈ u.conversationFiles := by
        rw [hboth.2.conversationFiles]
        exact AList.lookup_isSome.1 (Option.isSome_of_eq_some hfile)
      have hput := (hboth.1.putLinks hpresent hkept (hboth.2.messageFiles.symm ▸ hlinked)).putConversation
        counted (hcountedId.symm ▸ h.visible id
          (AList.lookup_isSome.1 (Option.isSome_of_eq_some hfile))) hconversation
      have hrun : linkItem env id item s =
          (.ok (), (u.putLinks id (s.itemsOf id ++ [link])).putConversation counted) := by
        unfold linkItem
        rw [bind_ok hload, bind_ok hlinks, if_neg (fun hany => hknown (plain_linked.1 hany)),
          modify_bind_run]
        show (do
          saveLinks env record.id (s.itemsOf id ++ [⟨item.id, item.fields.lookup "type",
            increment record.itemSeq⟩])
          saveConversation env { record with itemSeq := increment record.itemSeq } : StoreOp Unit) _ = _
        rw [← hlink, ← hcounted, bind_ok (saveLinks_run hkept _),
          saveConversation_run hconversation]
        rw [Store.putConversation, Store.putLinks, hcountedId, hid]
      refine ⟨?_, fun other => ?_⟩
      · show Consistent env (linkItem env id item s).2
        rw [hrun]
        exact hput
      · have hanswered := answered_of_ok (.linkItem id item) hrun
        show ((linkItem env id item s).2.itemsOf other).map Link.id = _
        rw [hrun, hanswered, follow, if_pos ⟨rfl, hknown⟩]
        show ((u.putLinks id (s.itemsOf id ++ [link])).itemsOf other).map Link.id = _
        rw [itemsOf_putLinks]
        split_ifs with hother
        · subst hother
          rw [Function.update_self, List.map_append, List.map_singleton, hlinkId]
        · rw [Function.update_of_ne hother, hboth.2.itemsOf]

/-! ## Deletion -/

/-- The items of the conversation that no other conversation links. -/
def Unused (s : Store) (id : String) (gone : List Link) : Prop :=
  ∀ item, item ∈ gone.map Link.id ↔ item ∈ (s.itemsOf id).map Link.id ∧
    ∀ other ∈ s.conversationFiles, other ≠ id → item ∉ (s.itemsOf other).map Link.id

theorem unused_filter (h : Consistent env s) {id : String} (convos : List Conversation)
    {used : List String}
    (hconvos : ∀ record, record ∈ convos ↔ s.conversationFiles.lookup record.id = some record)
    (hused : ∀ item, item ∈ used ↔
      ∃ convo ∈ convos, convo.id ≠ id ∧ item ∈ (s.itemsOf convo.id).map Link.id) :
    Unused s id ((s.itemsOf id).filter fun entry => entry.id ∉ used) := by
  have hunused : ∀ item, item ∉ used ↔
      ∀ other ∈ s.conversationFiles, other ≠ id → item ∉ (s.itemsOf other).map Link.id := by
    intro item
    rw [hused]
    constructor
    · intro hnone other hother hne hitem
      obtain ⟨record, hrecord⟩ := Option.isSome_iff_exists.1 (AList.lookup_isSome.2 hother)
      have hname := h.named other record hrecord
      subst hname
      exact hnone ⟨record, (hconvos record).2 hrecord, hne, hitem⟩
    · rintro hnone ⟨convo, hconvo, hne, hitem⟩
      have hfile := (hconvos convo).1 hconvo
      exact hnone convo.id (AList.lookup_isSome.1 (Option.isSome_of_eq_some hfile)) hne hitem
  intro item
  rw [← hunused, List.mem_map, List.mem_map]
  constructor
  · rintro ⟨link, hlink, rfl⟩
    obtain ⟨hmem, hnot⟩ := List.mem_filter.1 hlink
    exact ⟨⟨link, hmem, rfl⟩, of_decide_eq_true hnot⟩
  · rintro ⟨⟨link, hmem, rfl⟩, hnot⟩
    exact ⟨link, List.mem_filter.2 ⟨hmem, decide_eq_true hnot⟩, rfl⟩

theorem Consistent.deleteConversation (h : Consistent env s) (id : String) :
    (∃ message t, Conversations.deleteConversation env id s = (.error message, t) ∧
        Reading env s t) ∨
      ∃ record t gone, Conversations.deleteConversation env id s = (.ok record, t.removed id gone) ∧
        Reading env s t ∧ Unused s id gone := by
  cases hfile : s.conversationFiles.lookup id with
  | none =>
    obtain ⟨message, hmissing⟩ := h.load_missing hfile
    refine .inl ⟨message, s, ?_, h, .refl s⟩
    unfold Conversations.deleteConversation
    rw [bind_error hmissing]
  | some record =>
    obtain ⟨t, hload, hreading, -⟩ := h.load hfile
    obtain ⟨u, hlinks, hread, -⟩ := hreading.1.loadLinks id
    have hboth := hreading.trans hread
    unfold Conversations.deleteConversation
    rw [bind_ok hload, bind_ok hlinks]
    cases hlisted : listConversations true u with
    | mk result v =>
      have hlisting := ensures_listConversations env s true u hboth
      rw [hlisted] at hlisting
      cases result with
      | error message =>
        rw [bind_error hlisted]
        exact .inl ⟨message, v, rfl, hlisting.2 message v rfl⟩
      | ok convos =>
        obtain ⟨hv, hconvos⟩ := hlisting.1 convos v rfl
        rw [bind_ok hlisted]
        cases hcounted : usage id convos v with
        | mk result w =>
          have husage := ensures_usage env s id convos v hv
          rw [hcounted] at husage
          cases result with
          | error message =>
            rw [bind_error hcounted]
            exact .inl ⟨message, w, rfl, husage.2 message w rfl⟩
          | ok used =>
            obtain ⟨hw, hused⟩ := husage.1 used w rfl
            have hid : id ≠ "" := by
              rintro rfl
              have hvisible := h.visible "" (AList.lookup_isSome.1 (Option.isSome_of_eq_some hfile))
              exact absurd hvisible (by decide)
            refine .inr ⟨record, w, _, ?_, hw, unused_filter h convos ?_ hused⟩
            · rw [bind_ok hcounted, modify_bind_run, if_pos hid, hreading.2.itemsOf]
              rfl
            · intro other
              simpa using hconvos other

theorem followed_delete (h : Consistent env s) (id : String) : Followed env s (.deleteConversation id) := by
  rcases h.deleteConversation id with hraised | hdeleted
  · obtain ⟨message, t, hrun, hreading⟩ := hraised
    have hraise : (Action.deleteConversation id).run env s = (.error message, t) := bind_error hrun
    refine ⟨?_, fun other => ?_⟩
    · rw [hraise]
      exact hreading.1
    · rw [hraise, answered_of_error _ hraise, follow, if_neg Bool.false_ne_true, hreading.2.itemsOf]
  · obtain ⟨record, t, gone, hrun, hreading, hgone⟩ := hdeleted
    have hanswer : (Action.deleteConversation id).run env s = (.ok (), t.removed id gone) :=
      bind_ok hrun
    refine ⟨?_, fun other => ?_⟩
    · rw [hanswer]
      refine hreading.1.removed fun other hother link hlink hmem => ?_
      rw [hreading.2.itemsOf] at hlink
      have howned := h.owned other (List.ne_nil_of_mem hlink)
      exact ((hgone link.id).1 hmem).2 other howned hother (List.mem_map_of_mem hlink)
    · rw [hanswer, answered_of_ok _ hanswer, follow, if_pos rfl, itemsOf_removed]
      split_ifs with hother
      · rw [hother, Function.update_self]
        rfl
      · rw [Function.update_of_ne hother, hreading.2.itemsOf]

theorem removesUnused (h : Consistent env s) (id : String)
    (hanswered : (Action.deleteConversation id).answered env s = true) (item : String) :
    item ∈ ((Action.deleteConversation id).run env s).2.messageFiles ↔
      item ∈ s.messageFiles ∧ ¬ (item ∈ (s.itemsOf id).map Link.id ∧
        ∀ other ∈ s.conversationFiles, other ≠ id → item ∉ (s.itemsOf other).map Link.id) := by
  rcases h.deleteConversation id with hraised | hdeleted
  · obtain ⟨message, t, hrun, -⟩ := hraised
    have hraise : (Action.deleteConversation id).run env s = (.error message, t) := bind_error hrun
    rw [answered_of_error _ hraise] at hanswered
    cases hanswered
  · obtain ⟨record, t, gone, hrun, hreading, hgone⟩ := hdeleted
    have hanswer : (Action.deleteConversation id).run env s = (.ok (), t.removed id gone) :=
      bind_ok hrun
    rw [hanswer, mem_removed, hreading.2.messageFiles, hgone]

/-! ## Whole runs -/

theorem Action.Allowed.followed (h : Consistent env s) {action : Action}
    (hallowed : action.Allowed env s) : Followed env s action := by
  cases action with
  | createConversation options itemSeq id now => exact followed_create h hallowed
  | updateConversation id updates now => exact followed_update h hallowed
  | archiveConversation id now => exact followed_archive h hallowed
  | deleteConversation id => exact followed_delete h id
  | listConversations includeArchived => exact followed_list h includeArchived
  | getConversation id => exact followed_get h id
  | createItem options id now => exact followed_createItem h hallowed
  | updateItem id updates now => exact followed_updateItem h hallowed
  | linkItem conversationId item => exact followed_link h hallowed
  | listConversationItems id => exact followed_listItems h id
  | reopen => exact followed_reopen h hallowed

/-- The links that stand beside the store are those it keeps. -/
structure Tracked.Faithful (env : Env) (w : Tracked) : Prop where
  consistent : Consistent env w.store
  linked : w.linked = fun id => (w.store.itemsOf id).map Link.id

theorem Tracked.Faithful.step {w : Tracked} (h : w.Faithful env) {action : Action}
    (hallowed : action.Allowed env w.store) : (w.step env action).Faithful env := by
  have hfollowed := hallowed.followed h.consistent
  refine ⟨hfollowed.consistent, funext fun id => ?_⟩
  unfold Tracked.step
  dsimp only
  rw [h.linked]
  exact (hfollowed.linked id).symm

theorem Tracked.faithful_initial : Tracked.initial.Faithful env := by
  refine ⟨?_, rfl⟩
  constructor
  · intro id record hrecord
    cases hrecord
  · intro id hid
    cases hid
  · intro id record hrecord
    cases hrecord
  · intro id record hrecord
    cases hrecord
  · intro id record hrecord
    cases hrecord
  · intro id record hrecord
    cases hrecord
  · intro id record hrecord
    cases hrecord
  · intro id items hitems
    cases hitems
  · intro id items hitems
    cases hitems
  · intro id items hitems
    cases hitems
  · intro id hitems
    exact absurd rfl hitems

theorem Tracked.Faithful.promised {w : Tracked} (h : w.Faithful env) : w.Promised env := by
  refine ⟨fun id _ => ?_, h.consistent.gets⟩
  obtain ⟨records, t, hrun, hresolved, -⟩ := h.consistent.listConversationItems id
  have hlinked := itemsOf_wellLinked h.consistent id
  rw [h.linked]
  refine ⟨records, congrArg Prod.fst hrun, hresolved.ids, hlinked.distinct, fun item hitem => ?_,
    (w.store.itemsOf id).map Link.order, List.pairwise_map.2 hlinked.ascending, ?_⟩
  · obtain ⟨link, hlink, rfl⟩ := List.mem_map.1 hitem
    exact hlinked.existing link hlink
  · rw [hresolved.orders, List.map_map]
    rfl

theorem Tracked.Faithful.removes {w : Tracked} (h : w.Faithful env) (action : Action) :
    w.RemovesUnused env action := by
  cases action with
  | deleteConversation id =>
    intro hanswered item
    rw [h.linked]
    exact removesUnused h.consistent id hanswered item
  | _ => trivial

/-- JSON that loses nothing. -/
def lossless : Env where
  root := "llm"
  cwd := "home"
  defaultCwd := none
  tostring _ := ""
  reread value := .ok value

theorem kept_lossless (fields : Fields) : Kept lossless fields := by
  induction fields with
  | nil => rfl
  | cons field fields ih =>
    unfold Kept Env.write at ih ⊢
    rw [List.mapM_cons, ih]
    rfl

def orderOf (record : Item) : Int :=
  match record.fields.lookup "order" with
  | some (.number (.finite order)) => order.num
  | _ => 0

end Space2.Conversations
