import Space2.Base.Runs
import Space2.Conversations.Store

/-!
# Consistency of the caches and the files

A cache holds what a file holds, except that a cached item may carry the order of the
link it was last listed at. A conversation is read through one of two loaders, one of
which fills in missing fields; they agree where nothing is missing.
-/
namespace Space2.Conversations
open Base Base.Op

variable {env : Env} {s t : Store}

/-- What is written is read back as it was. -/
def Kept (env : Env) (fields : Fields) : Prop := env.write fields = .ok fields

def LinksKept (env : Env) (items : List Link) : Prop := items.mapM env.writeLink = .ok items

def Store.itemsOf (s : Store) (id : String) : List Link := (s.linkFiles.lookup id).getD []

/-- Links of different items that exist, in ascending order. -/
structure WellLinked (messageFiles : Table Item) (items : List Link) : Prop where
  distinct : (items.map Link.id).Nodup
  ascending : items.Pairwise fun first second => first.order < second.order
  existing : ∀ link ∈ items, link.id ∈ messageFiles

structure Consistent (env : Env) (s : Store) : Prop where
  named : ∀ id record, s.conversationFiles.lookup id = some record → record.id = id
  visible : ∀ id, id ∈ s.conversationFiles → listed id = true
  kept : ∀ id record, s.conversationFiles.lookup id = some record → Kept env record.fields
  normal : ∀ id record, s.conversationFiles.lookup id = some record →
    s.conversations.lookup id = none → env.normalize record.fields = record.fields
  cached : ∀ id record, s.conversations.lookup id = some record →
    s.conversationFiles.lookup id = some record
  itemNamed : ∀ id record, s.messageFiles.lookup id = some record → record.id = id
  itemCached : ∀ id record, s.messages.lookup id = some record →
    record.id = id ∧ id ∈ s.messageFiles
  linksCached : ∀ id items, s.links.lookup id = some items → s.linkFiles.lookup id = some items
  linksKept : ∀ id items, s.linkFiles.lookup id = some items → LinksKept env items
  linked : ∀ id items, s.linkFiles.lookup id = some items → WellLinked s.messageFiles items
  owned : ∀ id, s.itemsOf id ≠ [] → id ∈ s.conversationFiles

/-- Calls that read leave the files as they are, except that they may create a file
without links. -/
structure SameFiles (s t : Store) : Prop where
  conversationFiles : t.conversationFiles = s.conversationFiles
  messageFiles : t.messageFiles = s.messageFiles
  itemsOf : ∀ id, t.itemsOf id = s.itemsOf id

theorem SameFiles.refl (s : Store) : SameFiles s s := ⟨rfl, rfl, fun _ => rfl⟩

theorem SameFiles.trans {u : Store} (h : SameFiles s t) (hnext : SameFiles t u) : SameFiles s u :=
  ⟨hnext.conversationFiles.trans h.conversationFiles, hnext.messageFiles.trans h.messageFiles,
    fun id => (hnext.itemsOf id).trans (h.itemsOf id)⟩

/-- What a call that reads keeps. -/
def Reading (env : Env) (s t : Store) : Prop := Consistent env t ∧ SameFiles s t

theorem Reading.trans {u : Store} (h : Reading env s t) (hnext : Reading env t u) :
    Reading env s u := ⟨hnext.1, h.2.trans hnext.2⟩

theorem itemsOf_wellLinked (h : Consistent env s) (id : String) :
    WellLinked s.messageFiles (s.itemsOf id) := by
  unfold Store.itemsOf
  cases hitems : s.linkFiles.lookup id with
  | none => exact ⟨List.nodup_nil, List.Pairwise.nil, fun _ hnone => absurd hnone List.not_mem_nil⟩
  | some items => exact h.linked id items hitems

theorem itemsOf_kept (h : Consistent env s) (id : String) : LinksKept env (s.itemsOf id) := by
  unfold Store.itemsOf
  cases hitems : s.linkFiles.lookup id with
  | none => rfl
  | some items => exact h.linksKept id items hitems

theorem WellLinked.mono {files more : Table Item} {items : List Link} (h : WellLinked files items)
    (hmore : ∀ id, id ∈ files → id ∈ more) : WellLinked more items :=
  ⟨h.distinct, h.ascending, fun link hlink => hmore _ (h.existing link hlink)⟩

/-! ## Reading conversations -/

/-- The conversation is in the cache. -/
theorem Consistent.cache (h : Consistent env s) {id : String} {record : Conversation}
    (hfile : s.conversationFiles.lookup id = some record) :
    Consistent env { s with conversations := s.conversations.insert id record } := by
  refine ⟨h.named, h.visible, h.kept, ?_, ?_, h.itemNamed, h.itemCached, h.linksCached, h.linksKept,
    h.linked, h.owned⟩
  · intro other data hdata hnone
    by_cases hother : other = id
    · subst hother
      rw [AList.lookup_insert] at hnone
      cases hnone
    · rw [AList.lookup_insert_ne hother] at hnone
      exact h.normal other data hdata hnone
  · intro other data hdata
    by_cases hother : other = id
    · subst hother
      rw [AList.lookup_insert] at hdata
      cases hdata
      exact hfile
    · rw [AList.lookup_insert_ne hother] at hdata
      exact h.cached other data hdata

theorem Consistent.load (h : Consistent env s) {id : String} {record : Conversation}
    (hfile : s.conversationFiles.lookup id = some record) :
    ∃ t, getConversation env id s = (.ok record, t) ∧ Reading env s t ∧
      t.conversations.lookup id = some record := by
  unfold getConversation loadConversation
  rw [get_bind_run]
  cases hcached : s.conversations.lookup id with
  | some cached =>
    have hsame := h.cached id cached hcached
    rw [hfile] at hsame
    cases hsame
    exact ⟨s, rfl, ⟨h, .refl s⟩, hcached⟩
  | none =>
    have hnormal : { record with fields := env.normalize record.fields } = record := by
      rw [h.normal id record hfile hcached]
    rw [hfile]
    dsimp only
    rw [hnormal]
    exact ⟨_, rfl, ⟨h.cache hfile, ⟨rfl, rfl, fun _ => rfl⟩⟩, AList.lookup_insert _⟩

theorem Consistent.load_missing (h : Consistent env s) {id : String}
    (hfile : s.conversationFiles.lookup id = none) :
    ∃ message, getConversation env id s = (.error message, s) := by
  unfold getConversation loadConversation
  rw [get_bind_run]
  cases hcached : s.conversations.lookup id with
  | some cached =>
    have hsame := h.cached id cached hcached
    rw [hfile] at hsame
    cases hsame
  | none =>
    rw [hfile]
    exact ⟨_, rfl⟩

theorem ensures_getConversation (first : Store) (id : String) :
    Ensures (Reading env first) (getConversation env id)
      (fun record t => Reading env first t ∧ first.conversationFiles.lookup id = some record)
      (Reading env first) := by
  intro s hs
  cases hfile : s.conversationFiles.lookup id with
  | some record =>
    obtain ⟨t, hrun, hreading, -⟩ := hs.1.load hfile
    rw [hrun]
    refine ⟨fun other u hother => ?_, fun message u herror => by cases herror⟩
    cases hother
    rw [← hs.2.conversationFiles]
    exact ⟨hs.trans hreading, hfile⟩
  | none =>
    obtain ⟨message, hrun⟩ := hs.1.load_missing hfile
    rw [hrun]
    refine ⟨fun other u hother => (by cases hother), fun other u herror => ?_⟩
    cases herror
    exact hs

/-! ## Reading links -/

theorem Consistent.cacheLinks (h : Consistent env s) {id : String} {items : List Link}
    (hfile : s.linkFiles.lookup id = some items) :
    Consistent env { s with links := s.links.insert id items } := by
  refine ⟨h.named, h.visible, h.kept, h.normal, h.cached, h.itemNamed, h.itemCached, ?_,
    h.linksKept, h.linked, h.owned⟩
  intro other held hheld
  by_cases hother : other = id
  · subst hother
    rw [AList.lookup_insert] at hheld
    cases hheld
    exact hfile
  · rw [AList.lookup_insert_ne hother] at hheld
    exact h.linksCached other held hheld

theorem itemsOf_noLinks {id : String} (hfile : s.linkFiles.lookup id = none) (other : String) :
    ({ s with linkFiles := s.linkFiles.insert id [] } : Store).itemsOf other = s.itemsOf other := by
  unfold Store.itemsOf
  by_cases hother : other = id
  · subst hother
    rw [AList.lookup_insert, hfile]
    rfl
  · rw [AList.lookup_insert_ne hother]

theorem Consistent.noLinks (h : Consistent env s) {id : String}
    (hfile : s.linkFiles.lookup id = none) :
    Consistent env { s with linkFiles := s.linkFiles.insert id [] } := by
  refine ⟨h.named, h.visible, h.kept, h.normal, h.cached, h.itemNamed, h.itemCached, ?_, ?_, ?_, ?_⟩
  · intro other items hitems
    have hbefore := h.linksCached other items hitems
    by_cases hother : other = id
    · subst hother
      rw [hfile] at hbefore
      cases hbefore
    · rwa [AList.lookup_insert_ne hother]
  · intro other items hitems
    by_cases hother : other = id
    · subst hother
      rw [AList.lookup_insert] at hitems
      cases hitems
      rfl
    · rw [AList.lookup_insert_ne hother] at hitems
      exact h.linksKept other items hitems
  · intro other items hitems
    by_cases hother : other = id
    · subst hother
      rw [AList.lookup_insert] at hitems
      cases hitems
      exact ⟨List.nodup_nil, List.Pairwise.nil, fun _ hnone => absurd hnone List.not_mem_nil⟩
    · rw [AList.lookup_insert_ne hother] at hitems
      exact h.linked other items hitems
  · intro other hitems
    rw [itemsOf_noLinks hfile] at hitems
    exact h.owned other hitems

theorem Consistent.loadLinks (h : Consistent env s) (id : String) :
    ∃ t, Conversations.loadLinks id s = (.ok (s.itemsOf id), t) ∧ Reading env s t ∧
      t.links.lookup id = some (s.itemsOf id) := by
  unfold Conversations.loadLinks
  rw [get_bind_run]
  cases hcached : s.links.lookup id with
  | some items =>
    have hitems : s.itemsOf id = items := by
      unfold Store.itemsOf
      rw [h.linksCached id items hcached]
      rfl
    rw [hitems]
    exact ⟨s, rfl, ⟨h, .refl s⟩, hcached⟩
  | none =>
    refine ⟨_, rfl, ?_, AList.lookup_insert _⟩
    cases hfile : s.linkFiles.lookup id with
    | some items =>
      simp only [hfile, Option.isSome_some, if_true, Option.getD_some]
      exact ⟨h.cacheLinks hfile, ⟨rfl, rfl, fun _ => rfl⟩⟩
    | none =>
      simp only [hfile, Option.isSome_none, Bool.false_eq_true, if_false, Option.getD_none]
      refine ⟨(h.noLinks hfile).cacheLinks (AList.lookup_insert _), ⟨rfl, rfl, fun other => ?_⟩⟩
      exact itemsOf_noLinks hfile other

theorem ensures_loadLinks (first : Store) (id : String) :
    Ensures (Reading env first) (Conversations.loadLinks id)
      (fun items t => Reading env first t ∧ items = first.itemsOf id) (Reading env first) := by
  intro s hs
  obtain ⟨t, hrun, hreading, -⟩ := hs.1.loadLinks id
  rw [hrun]
  refine ⟨fun items u hitems => ?_, fun message u herror => (by cases herror)⟩
  cases hitems
  exact ⟨hs.trans hreading, hs.2.itemsOf id⟩

/-! ## Listing conversations -/

theorem lookup_cacheAll {read : List Conversation} {kept : Table Conversation} {id : String} :
    (read.foldl (fun kept data => kept.insert data.id data) kept).lookup id =
      ((read.reverse.find? fun data => data.id = id) <|> kept.lookup id) := by
  induction read generalizing kept with
  | nil => simp
  | cons data read ih =>
    rw [List.foldl_cons, ih, List.reverse_cons, List.find?_append]
    cases read.reverse.find? fun data => data.id = id with
    | some found => simp
    | none =>
      by_cases hdata : data.id = id
      · subst hdata
        simp [AList.lookup_insert]
      · simp [AList.lookup_insert_ne (Ne.symm hdata), hdata]

/-- The records that a listing reads. -/
def Store.read (s : Store) : List Conversation :=
  (s.conversationFiles.entries.filter fun file => listed file.1).map Sigma.snd

theorem mem_read {record : Conversation} : record ∈ s.read ↔
    ∃ id, s.conversationFiles.lookup id = some record ∧ listed id = true := by
  unfold Store.read
  rw [List.mem_map]
  constructor
  · rintro ⟨⟨id, data⟩, hfile, rfl⟩
    obtain ⟨hentry, hlisted⟩ := List.mem_filter.1 hfile
    exact ⟨id, AList.mem_lookup_iff.2 hentry, hlisted⟩
  · rintro ⟨id, hfile, hlisted⟩
    exact ⟨⟨id, record⟩, List.mem_filter.2 ⟨AList.mem_lookup_iff.1 hfile, hlisted⟩, rfl⟩

theorem Consistent.mem_read (h : Consistent env s) {record : Conversation} :
    record ∈ s.read ↔ s.conversationFiles.lookup record.id = some record := by
  rw [Conversations.mem_read]
  constructor
  · rintro ⟨id, hfile, -⟩
    rwa [h.named id record hfile]
  · intro hfile
    exact ⟨record.id, hfile, h.visible _ (AList.lookup_isSome.1 (Option.isSome_of_eq_some hfile))⟩

/-- A listing puts every conversation into the cache as it is stored. -/
theorem Consistent.lookup_cacheAll (h : Consistent env s) (id : String) :
    (s.read.foldl (fun kept data => kept.insert data.id data) s.conversations).lookup id =
      s.conversationFiles.lookup id := by
  rw [Conversations.lookup_cacheAll]
  cases hfound : s.read.reverse.find? fun data => data.id = id with
  | some found =>
    have hid : found.id = id := by simpa using List.find?_some hfound
    have hmem := h.mem_read.1 (List.mem_reverse.1 (List.mem_of_find?_eq_some hfound))
    rw [hid] at hmem
    rw [hmem]
    rfl
  | none =>
    have hnone : s.conversationFiles.lookup id = none := by
      cases hfile : s.conversationFiles.lookup id with
      | none => rfl
      | some record =>
        have hid := h.named id record hfile
        have hmem : record ∈ s.read := h.mem_read.2 (by rwa [hid])
        have hmissed := List.find?_eq_none.1 hfound record (List.mem_reverse.2 hmem)
        exact absurd hid (by simpa using hmissed)
    rw [hnone]
    cases hcached : s.conversations.lookup id with
    | none => rfl
    | some record =>
      rw [h.cached id record hcached] at hnone
      cases hnone

theorem Consistent.cacheAll (h : Consistent env s) : Consistent env
    { s with
      conversations := s.read.foldl (fun kept data => kept.insert data.id data) s.conversations } := by
  refine ⟨h.named, h.visible, h.kept, ?_, ?_, h.itemNamed, h.itemCached, h.linksCached, h.linksKept,
    h.linked, h.owned⟩
  · intro id record hfile hnone
    rw [h.lookup_cacheAll, hfile] at hnone
    cases hnone
  · intro id record hcached
    rwa [h.lookup_cacheAll] at hcached

theorem ensures_listConversations (env : Env) (first : Store) (includeArchived : Bool) :
    Ensures (Reading env first) (listConversations includeArchived)
      (fun items t => Reading env first t ∧ ∀ record, record ∈ items ↔
        first.conversationFiles.lookup record.id = some record ∧
          (includeArchived || !record.archived) = true)
      (Reading env first) := by
  unfold listConversations
  refine ensures_get fun s hs => ?_
  refine ensures_modify_bind (Reading env first) ?_ ?_
  · rintro t rfl
    exact hs.trans ⟨hs.1.cacheAll, ⟨rfl, rfl, fun _ => rfl⟩⟩
  · refine ensures_require_bind (fun _ => ?_) fun _ _ ht => ht
    refine ensures_pure fun t ht => ⟨ht, fun record => ?_⟩
    rw [mem_tableSort, List.mem_filter, ← hs.2.conversationFiles]
    exact and_congr_left fun _ => hs.1.mem_read

/-! ## Reading items -/

theorem Consistent.cacheItem (h : Consistent env s) (record : Item)
    (hfile : record.id ∈ s.messageFiles) :
    Consistent env { s with messages := s.messages.insert record.id record } := by
  refine ⟨h.named, h.visible, h.kept, h.normal, h.cached, h.itemNamed, ?_, h.linksCached, h.linksKept,
    h.linked, h.owned⟩
  intro id held hheld
  by_cases hid : id = record.id
  · subst hid
    rw [AList.lookup_insert] at hheld
    cases hheld
    exact ⟨rfl, hfile⟩
  · rw [AList.lookup_insert_ne hid] at hheld
    exact h.itemCached id held hheld

theorem Consistent.loadMessage (h : Consistent env s) {id : String} (hfile : id ∈ s.messageFiles) :
    ∃ record t, Conversations.loadMessage env id s = (.ok record, t) ∧ record.id = id ∧
      Reading env s t ∧ (s.messages.lookup id <|> s.messageFiles.lookup id) = some record := by
  unfold Conversations.loadMessage
  rw [get_bind_run]
  cases hcached : s.messages.lookup id with
  | some record =>
    exact ⟨record, s, rfl, (h.itemCached id record hcached).1, ⟨h, .refl s⟩, rfl⟩
  | none =>
    obtain ⟨record, hrecord⟩ := Option.isSome_iff_exists.1 (AList.lookup_isSome.2 hfile)
    have hid := h.itemNamed id record hrecord
    subst hid
    rw [hrecord]
    exact ⟨record, _, rfl, rfl, ⟨h.cacheItem _ hfile, ⟨rfl, rfl, fun _ => rfl⟩⟩, rfl⟩

theorem Consistent.loadMessage_missing (h : Consistent env s) {id : String}
    (hfile : id ∉ s.messageFiles) :
    ∃ message, Conversations.loadMessage env id s = (.error message, s) := by
  unfold Conversations.loadMessage
  rw [get_bind_run]
  cases hcached : s.messages.lookup id with
  | some record => exact absurd (h.itemCached id record hcached).2 hfile
  | none =>
    rw [AList.lookup_eq_none.2 hfile]
    exact ⟨_, rfl⟩

theorem ensures_loadMessage (first : Store) (id : String) :
    Ensures (Reading env first) (Conversations.loadMessage env id)
      (fun record t => Reading env first t ∧ record.id = id ∧ id ∈ first.messageFiles)
      (Reading env first) := by
  intro s hs
  by_cases hfile : id ∈ s.messageFiles
  · obtain ⟨record, t, hrun, hid, hreading, -⟩ := hs.1.loadMessage hfile
    rw [hrun]
    refine ⟨fun other u hother => ?_, fun message u herror => (by cases herror)⟩
    cases hother
    exact ⟨hs.trans hreading, hid, hs.2.messageFiles ▸ hfile⟩
  · obtain ⟨message, hrun⟩ := hs.1.loadMessage_missing hfile
    rw [hrun]
    refine ⟨fun other u hother => (by cases hother), fun other u herror => ?_⟩
    cases herror
    exact hs

theorem lookup_insertField (key : String) (value : Lua) (fields : Fields) :
    (Lua.insertField key value fields).lookup key = some value := by
  induction fields with
  | nil => simp [Lua.insertField]
  | cons field fields ih =>
    rw [Lua.insertField]
    split_ifs with hkey
    · rw [List.lookup_cons, beq_self_eq_true]
    · rw [List.lookup_cons, beq_false_of_ne (Ne.symm hkey)]
      exact ih

/-- The records of a listing, in the order of their links. -/
structure Resolved (items : List Link) (records : List Item) : Prop where
  ids : records.map Item.id = items.map Link.id
  orders : records.map (fun record => record.fields.lookup "order") =
    items.map fun link => some (.number (.finite link.order))

theorem Consistent.resolve (h : Consistent env s) (items : List Link)
    (hexisting : ∀ link ∈ items, link.id ∈ s.messageFiles) :
    ∃ records t, Conversations.resolve env items s = (.ok records, t) ∧ Resolved items records ∧
      Reading env s t := by
  induction items generalizing s with
  | nil => exact ⟨[], s, rfl, ⟨rfl, rfl⟩, h, .refl s⟩
  | cons link rest ih =>
    obtain ⟨record, t, hrun, hid, hreading, -⟩ := h.loadMessage (hexisting link List.mem_cons_self)
    have hfile : record.id ∈ t.messageFiles := by
      rw [hreading.2.messageFiles, hid]
      exact hexisting link List.mem_cons_self
    have hordered := hreading.1.cacheItem (record.ordered link.order) hfile
    obtain ⟨records, u, hrest, hresolved, hothers⟩ := ih hordered fun other hother => by
      show other.id ∈ t.messageFiles
      rw [hreading.2.messageFiles]
      exact hexisting other (List.mem_cons_of_mem _ hother)
    have hmarked : Reading env t _ := ⟨hordered, ⟨rfl, rfl, fun _ => rfl⟩⟩
    refine ⟨record.ordered link.order :: records, u, ?_, ⟨?_, ?_⟩,
      (hreading.trans hmarked).trans hothers⟩
    · rw [Conversations.resolve, bind_ok hrun, modify_bind_run, ← hid]
      exact bind_ok hrest
    · rw [List.map_cons, List.map_cons, hresolved.ids, ← hid]
      rfl
    · rw [List.map_cons, List.map_cons, hresolved.orders, Item.ordered, lookup_insertField]

theorem Consistent.listConversationItems (h : Consistent env s) (id : String) :
    ∃ records t, Conversations.listConversationItems env id s = (.ok records, t) ∧
      Resolved (s.itemsOf id) records ∧ Reading env s t := by
  obtain ⟨t, hrun, hreading, hcached⟩ := h.loadLinks id
  have hlinked := itemsOf_wellLinked h id
  have hsorted : tableSort (fun a b : Link => decide (a.order < b.order)) (s.itemsOf id) =
      s.itemsOf id := by
    have hascending : (s.itemsOf id).Pairwise fun a b => Link.order a ≤ Link.order b :=
      hlinked.ascending.imp Int.le_of_lt
    exact tableSort_of_ascending (fun a b => decide_eq_true_iff) hascending
  have hfile := hreading.1.linksCached id _ hcached
  obtain ⟨records, u, hresolve, hresolved, hrest⟩ := (hreading.1.cacheLinks hfile).resolve
    (s.itemsOf id) fun link hlink => by
      show link.id ∈ t.messageFiles
      rw [hreading.2.messageFiles]
      exact hlinked.existing link hlink
  have hkept : Reading env t _ := ⟨hreading.1.cacheLinks hfile, ⟨rfl, rfl, fun _ => rfl⟩⟩
  refine ⟨records, u, ?_, hresolved, (hreading.trans hkept).trans hrest⟩
  unfold Conversations.listConversationItems
  rw [bind_ok hrun, hsorted, modify_bind_run]
  exact hresolve

theorem ensures_usage (env : Env) (first : Store) (id : String) (convos : List Conversation) :
    Ensures (Reading env first) (usage id convos)
      (fun used t => Reading env first t ∧ ∀ item, item ∈ used ↔
        ∃ convo ∈ convos, convo.id ≠ id ∧ item ∈ (first.itemsOf convo.id).map Link.id)
      (Reading env first) := by
  induction convos with
  | nil => exact ensures_pure fun t ht => ⟨ht, fun item => by simp⟩
  | cons convo rest ih =>
    rw [usage]
    split_ifs with hsame
    · refine ih.weaken (fun _ ht => ht) (fun used t hused => ⟨hused.1, fun item => ?_⟩) fun _ ht => ht
      rw [hused.2 item]
      simp [hsame]
    · refine ensures_bind (ensures_loadLinks first convo.id) fun items => ?_
      refine ensures_given fun hitems => ensures_bind ih fun others => ?_
      refine ensures_pure fun t ht => ⟨ht.1, fun item => ?_⟩
      rw [List.mem_append, ht.2 item, hitems]
      simp [hsame]

end Space2.Conversations
