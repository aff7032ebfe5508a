import Space2.Conversations.Consistency

/-!
# What the calls change

Each call that answers puts one record, one list of links, or removes one conversation
with the items that no other conversation uses.
-/
namespace Space2.Conversations
open Base Base.Op

variable {env : Env} {s t : Store}

/-! ## Records -/

def Store.putConversation (record : Conversation) (s : Store) : Store :=
  { s with
    conversations := s.conversations.insert record.id record
    conversationFiles := s.conversationFiles.insert record.id record }

def Store.putItem (record written : Item) (s : Store) : Store :=
  { s with
    messages := s.messages.insert record.id record
    messageFiles := s.messageFiles.insert record.id written }

def Store.putLinks (id : String) (items : List Link) (s : Store) : Store :=
  { s with
    links := s.links.insert id items
    linkFiles := s.linkFiles.insert id items }

theorem Consistent.putConversation (h : Consistent env s) (record : Conversation)
    (hlisted : listed record.id = true) (hkept : Kept env record.fields) :
    Consistent env (s.putConversation record) := by
  have hfile : ∀ id data, (s.conversationFiles.insert record.id record).lookup id = some data →
      data = record ∧ id = record.id ∨ s.conversationFiles.lookup id = some data := by
    intro id data hdata
    by_cases hid : id = record.id
    · subst hid
      rw [AList.lookup_insert] at hdata
      cases hdata
      exact .inl ⟨rfl, rfl⟩
    · rw [AList.lookup_insert_ne hid] at hdata
      exact .inr hdata
  refine ⟨?_, ?_, ?_, ?_, ?_, h.itemNamed, h.itemCached, h.linksCached, h.linksKept, h.linked, ?_⟩
  · intro id data hdata
    rcases hfile id data hdata with ⟨rfl, rfl⟩ | hold
    · rfl
    · exact h.named id data hold
  · intro id hid
    rcases (AList.mem_insert _).1 hid with rfl | hold
    · exact hlisted
    · exact h.visible id hold
  · intro id data hdata
    rcases hfile id data hdata with ⟨rfl, rfl⟩ | hold
    · exact hkept
    · exact h.kept id data hold
  · intro id data hdata hnone
    rw [Store.putConversation, AList.lookup_insert_eq_none] at hnone
    rcases hfile id data hdata with ⟨rfl, rfl⟩ | hold
    · exact absurd rfl hnone.1
    · exact h.normal id data hold hnone.2
  · intro id data hdata
    by_cases hid : id = record.id
    · subst hid
      rw [Store.putConversation, AList.lookup_insert] at hdata ⊢
      exact hdata
    · rw [Store.putConversation, AList.lookup_insert_ne hid] at hdata ⊢
      exact h.cached id data hdata
  · intro id hitems
    exact (AList.mem_insert _).2 (.inr (h.owned id hitems))

theorem Consistent.putItem (h : Consistent env s) (record written : Item)
    (hwritten : written.id = record.id) : Consistent env (s.putItem record written) := by
  have hmore : ∀ id, id ∈ s.messageFiles → id ∈ (s.putItem record written).messageFiles :=
    fun id hid => (AList.mem_insert _).2 (.inr hid)
  refine ⟨h.named, h.visible, h.kept, h.normal, h.cached, ?_, ?_, h.linksCached, h.linksKept,
    fun id items hitems => (h.linked id items hitems).mono hmore, h.owned⟩
  · intro id data hdata
    by_cases hid : id = record.id
    · subst hid
      rw [Store.putItem, AList.lookup_insert] at hdata
      cases hdata
      exact hwritten
    · rw [Store.putItem, AList.lookup_insert_ne hid] at hdata
      exact h.itemNamed id data hdata
  · intro id data hdata
    by_cases hid : id = record.id
    · subst hid
      rw [Store.putItem, AList.lookup_insert] at hdata
      cases hdata
      exact ⟨rfl, (AList.mem_insert _).2 (.inl rfl)⟩
    · rw [Store.putItem, AList.lookup_insert_ne hid] at hdata
      obtain ⟨hname, hfile⟩ := h.itemCached id data hdata
      exact ⟨hname, hmore id hfile⟩

theorem itemsOf_putLinks (id other : String) (items : List Link) (s : Store) :
    (s.putLinks id items).itemsOf other = if other = id then items else s.itemsOf other := by
  unfold Store.itemsOf Store.putLinks
  split_ifs with hother
  · subst hother
    rw [AList.lookup_insert, Option.getD_some]
  · rw [AList.lookup_insert_ne hother]

theorem Consistent.putLinks (h : Consistent env s) {id : String} {items : List Link}
    (howned : id ∈ s.conversationFiles) (hkept : LinksKept env items)
    (hlinked : WellLinked s.messageFiles items) : Consistent env (s.putLinks id items) := by
  have hfile : ∀ other held, (s.linkFiles.insert id items).lookup other = some held →
      held = items ∨ s.linkFiles.lookup other = some held := by
    intro other held hheld
    by_cases hother : other = id
    · subst hother
      rw [AList.lookup_insert] at hheld
      cases hheld
      exact .inl rfl
    · rw [AList.lookup_insert_ne hother] at hheld
      exact .inr hheld
  refine ⟨h.named, h.visible, h.kept, h.normal, h.cached, h.itemNamed, h.itemCached, ?_, ?_, ?_, ?_⟩
  · intro other held hheld
    by_cases hother : other = id
    · subst hother
      rw [Store.putLinks, AList.lookup_insert] at hheld ⊢
      exact hheld
    · rw [Store.putLinks, AList.lookup_insert_ne hother] at hheld ⊢
      exact h.linksCached other held hheld
  · intro other held hheld
    rcases hfile other held hheld with rfl | hold
    · exact hkept
    · exact h.linksKept other held hold
  · intro other held hheld
    rcases hfile other held hheld with rfl | hold
    · exact hlinked
    · exact h.linked other held hold
  · intro other hitems
    rw [itemsOf_putLinks] at hitems
    split_ifs at hitems with hother
    · exact hother ▸ howned
    · exact h.owned other hitems

theorem Consistent.activate (h : Consistent env s) (active : Option String) :
    Consistent env { s with activeConversationId := active } :=
  ⟨h.named, h.visible, h.kept, h.normal, h.cached, h.itemNamed, h.itemCached, h.linksCached,
    h.linksKept, h.linked, h.owned⟩

/-! ## Removal -/

/-- What deleting a conversation leaves, with `gone` the items removed. -/
def Store.removed (id : String) (gone : List Link) (s : Store) : Store :=
  removeConversation id (gone.foldl (fun s entry => removeItem entry.id s) s)

theorem removeItems_fields (gone : List Link) (s : Store) :
    (gone.foldl (fun s entry => removeItem entry.id s) s).conversationFiles = s.conversationFiles ∧
      (gone.foldl (fun s entry => removeItem entry.id s) s).conversations = s.conversations ∧
      (gone.foldl (fun s entry => removeItem entry.id s) s).linkFiles = s.linkFiles ∧
      (gone.foldl (fun s entry => removeItem entry.id s) s).links = s.links := by
  induction gone generalizing s with
  | nil => exact ⟨rfl, rfl, rfl, rfl⟩
  | cons entry gone ih => exact ih (removeItem entry.id s)

theorem lookup_removeItems (gone : List Link) (s : Store) (id : String) :
    (gone.foldl (fun s entry => removeItem entry.id s) s).messageFiles.lookup id =
        (if id ∈ gone.map Link.id then none else s.messageFiles.lookup id) ∧
      (gone.foldl (fun s entry => removeItem entry.id s) s).messages.lookup id =
        if id ∈ gone.map Link.id then none else s.messages.lookup id := by
  induction gone generalizing s with
  | nil => exact ⟨rfl, rfl⟩
  | cons entry gone ih =>
    rw [List.foldl_cons]
    rw [(ih _).1, (ih _).2]
    by_cases hid : id = entry.id
    · subst hid
      simp [removeItem, AList.lookup_erase]
    · simp [removeItem, AList.lookup_erase_ne hid, hid]

theorem mem_removed {id item : String} {gone : List Link} :
    item ∈ (s.removed id gone).messageFiles ↔ item ∈ s.messageFiles ∧ item ∉ gone.map Link.id := by
  rw [← AList.lookup_isSome, ← AList.lookup_isSome, Store.removed, removeConversation]
  dsimp only
  rw [(lookup_removeItems gone s item).1]
  split_ifs with hgone
  · simp [hgone]
  · simp [hgone]

theorem itemsOf_removed (id other : String) (gone : List Link) (s : Store) :
    (s.removed id gone).itemsOf other = if other = id then [] else s.itemsOf other := by
  unfold Store.itemsOf Store.removed removeConversation
  dsimp only
  rw [(removeItems_fields gone s).2.2.1]
  split_ifs with hother
  · subst hother
    rw [AList.lookup_erase]
    rfl
  · rw [AList.lookup_erase_ne hother]

theorem Consistent.removed (h : Consistent env s) {id : String} {gone : List Link}
    (hunused : ∀ other, other ≠ id → ∀ link ∈ s.itemsOf other, link.id ∉ gone.map Link.id) :
    Consistent env (s.removed id gone) := by
  obtain ⟨hconversationFiles, hconversations, hlinkFiles, hlinks⟩ := removeItems_fields gone s
  have hfile : ∀ other data, (s.removed id gone).conversationFiles.lookup other = some data →
      other ≠ id ∧ s.conversationFiles.lookup other = some data := by
    intro other data hdata
    rw [Store.removed, removeConversation, hconversationFiles] at hdata
    by_cases hother : other = id
    · subst hother
      rw [AList.lookup_erase] at hdata
      cases hdata
    · rw [AList.lookup_erase_ne hother] at hdata
      exact ⟨hother, hdata⟩
  have hlinkFile : ∀ other items, (s.removed id gone).linkFiles.lookup other = some items →
      other ≠ id ∧ s.linkFiles.lookup other = some items := by
    intro other items hitems
    rw [Store.removed, removeConversation, hlinkFiles] at hitems
    by_cases hother : other = id
    · subst hother
      rw [AList.lookup_erase] at hitems
      cases hitems
    · rw [AList.lookup_erase_ne hother] at hitems
      exact ⟨hother, hitems⟩
  refine ⟨?_, ?_, ?_, ?_, ?_, ?_, ?_, ?_, ?_, ?_, ?_⟩
  · exact fun other data hdata => h.named other data (hfile other data hdata).2
  · intro other hother
    obtain ⟨data, hdata⟩ := Option.isSome_iff_exists.1 (AList.lookup_isSome.2 hother)
    exact h.visible other (AList.lookup_isSome.1 (Option.isSome_of_eq_some (hfile other data hdata).2))
  · exact fun other data hdata => h.kept other data (hfile other data hdata).2
  · intro other data hdata hnone
    obtain ⟨hother, hold⟩ := hfile other data hdata
    rw [Store.removed, removeConversation, hconversations, AList.lookup_erase_ne hother] at hnone
    exact h.normal other data hold hnone
  · intro other data hdata
    rw [Store.removed, removeConversation, hconversations] at hdata
    by_cases hother : other = id
    · subst hother
      rw [AList.lookup_erase] at hdata
      cases hdata
    · rw [AList.lookup_erase_ne hother] at hdata
      rw [Store.removed, removeConversation, hconversationFiles, AList.lookup_erase_ne hother]
      exact h.cached other data hdata
  · intro other data hdata
    rw [Store.removed, removeConversation, (lookup_removeItems gone s other).1] at hdata
    split_ifs at hdata
    exact h.itemNamed other data hdata
  · intro other data hdata
    rw [Store.removed, removeConversation, (lookup_removeItems gone s other).2] at hdata
    split_ifs at hdata with hgone
    obtain ⟨hname, hold⟩ := h.itemCached other data hdata
    exact ⟨hname, mem_removed.2 ⟨hold, hgone⟩⟩
  · intro other items hitems
    rw [Store.removed, removeConversation, hlinks] at hitems
    by_cases hother : other = id
    · subst hother
      rw [AList.lookup_erase] at hitems
      cases hitems
    · rw [AList.lookup_erase_ne hother] at hitems
      rw [Store.removed, removeConversation, hlinkFiles, AList.lookup_erase_ne hother]
      exact h.linksCached other items hitems
  · exact fun other items hitems => h.linksKept other items (hlinkFile other items hitems).2
  · intro other items hitems
    obtain ⟨hother, hold⟩ := hlinkFile other items hitems
    have hlinked := h.linked other items hold
    refine ⟨hlinked.distinct, hlinked.ascending, fun link hlink => ?_⟩
    refine mem_removed.2 ⟨hlinked.existing link hlink, hunused other hother link ?_⟩
    unfold Store.itemsOf
    rw [hold]
    exact hlink
  · intro other hitems
    rw [itemsOf_removed] at hitems
    split_ifs at hitems with hother
    · exact absurd rfl hitems
    · have hold := h.owned other hitems
      rw [← AList.lookup_isSome] at hold ⊢
      rw [Store.removed, removeConversation, hconversationFiles, AList.lookup_erase_ne hother]
      exact hold

end Space2.Conversations
