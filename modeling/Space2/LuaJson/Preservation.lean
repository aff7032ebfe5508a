import Space2.Base.Checks
import Space2.LuaJson.Bridge
import Mathlib.Tactic.NormNum

/-!
# Loading a document and dumping it again

Every number comes back as a double, an empty object as an empty array. What is
dumped says what was loaded exactly when no integer was narrowed and no object
was empty; loaded once more it is the value it was dumped from.
-/
namespace Space2.LuaJson
open Json Base

section Numbers

theorem toInt_bounds (value : Int) : -2 ^ 31 ≤ toInt value ∧ toInt value < 2 ^ 31 :=
  ⟨Int.le_bmod (by decide), Int.bmod_lt (by decide)⟩

theorem toInt_eq_self {value : Int} :
    toInt value = value ↔ -2 ^ 31 ≤ value ∧ value < 2 ^ 31 := by
  constructor
  · intro h
    rw [← h]
    exact toInt_bounds value
  · intro h
    exact Int.bmod_eq_of_le h.1 h.2

theorem toUnsignedInt_eq_self {value : Nat} : toUnsignedInt value = value ↔ value < 2 ^ 32 := by
  unfold toUnsignedInt
  omega

theorem toDouble_toInt (value : Int) : toDouble (toInt value) = toInt value := by
  have hbounds := toInt_bounds value
  exact toDouble_of_small (by omega)

theorem toDouble_toUnsignedInt (value : Nat) :
    toDouble (toUnsignedInt value) = toUnsignedInt value := by
  have hbound : toUnsignedInt value < 2 ^ 32 := Nat.mod_lt _ (by decide)
  exact_mod_cast @toDouble_of_small (toUnsignedInt value) (by omega)

/-- A 32-bit remainder is the double of a large integer only if the integer is its remainder. -/
theorem unsigned_kept {value : Nat} :
    (toUnsignedInt value : ℚ) = (if value < 2 ^ 63 then (value : ℚ) else toDouble value) ↔
      value < 2 ^ 32 := by
  rw [← toUnsignedInt_eq_self]
  split_ifs with hsmall
  · exact Nat.cast_inj
  · have hround := le_roundNat (Nat.le_of_not_lt hsmall)
    have hbound : toUnsignedInt value < 2 ^ 32 := Nat.mod_lt _ (by decide)
    have hsign : (value : Int).sign = 1 := Int.sign_eq_one_of_pos (by omega)
    rw [toDouble, hsign, Int.natAbs_natCast, Int.cast_one, one_mul]
    constructor
    · intro h
      have h' : toUnsignedInt value = roundNat value := by exact_mod_cast h
      omega
    · intro h
      omega

end Numbers

section Fields
variable {key : String} {value : Json} {fields : List (String × Json)}

def KeyOrdered (fields : List (String × Json)) : Prop :=
  fields.Pairwise fun field field' => field.1 < field'.1

theorem setField_spec (hordered : KeyOrdered fields) (hnew : ∀ field ∈ fields, field.1 ≠ key) :
    KeyOrdered (setField key value fields) ∧
      (setField key value fields).Perm ((key, value) :: fields) := by
  unfold KeyOrdered at *
  induction fields with
  | nil => exact ⟨List.pairwise_singleton _ _, List.Perm.refl _⟩
  | cons field rest ih =>
    obtain ⟨key', value'⟩ := field
    obtain ⟨hfirst, hrest⟩ := List.pairwise_cons.mp hordered
    have hne : key' ≠ key := hnew _ List.mem_cons_self
    obtain ⟨ihordered, ihperm⟩ := ih hrest fun other hmem =>
      hnew other (List.mem_cons_of_mem _ hmem)
    rw [setField]
    split_ifs with hlt heq
    · refine ⟨List.pairwise_cons.mpr ⟨?_, hordered⟩, List.Perm.refl _⟩
      intro other hmem
      rcases List.mem_cons.mp hmem with rfl | hmem
      · exact hlt
      · exact hlt.trans (hfirst other hmem)
    · exact absurd heq.symm hne
    · refine ⟨List.pairwise_cons.mpr ⟨?_, ihordered⟩, ?_⟩
      · intro other hmem
        rcases List.mem_cons.mp (ihperm.mem_iff.mp hmem) with rfl | hmem
        · exact lt_of_le_of_ne (not_lt.mp hlt) hne
        · exact hfirst other hmem
      · exact (ihperm.cons _).trans (List.Perm.swap _ _ _)

def stringField : LuaKey × Json → Option (String × Json)
  | (.string key, value) => some (key, value)
  | (.integer _, _) => none

/-- A table with string keys becomes the object of its entries, whatever order they come in. -/
theorem objectOf_spec {visited : List (LuaKey × Json)}
    (hstrings : ∀ entry ∈ visited, (stringField entry).isSome)
    (hdistinct : ((visited.filterMap stringField ++ fields).map Prod.fst).Nodup)
    (hordered : KeyOrdered fields) :
    ∃ object, objectOf visited fields = .ok object ∧ KeyOrdered object ∧
      object.Perm (visited.filterMap stringField ++ fields) := by
  induction visited generalizing fields with
  | nil => exact ⟨fields, rfl, hordered, List.Perm.refl _⟩
  | cons entry rest ih =>
    obtain ⟨_ | key, value⟩ := entry
    · simpa [stringField] using hstrings _ List.mem_cons_self
    · have hkept : List.filterMap stringField ((.string key, value) :: rest) =
          (key, value) :: rest.filterMap stringField := rfl
      rw [hkept, List.cons_append, List.map_cons, List.nodup_cons] at hdistinct
      have hnew : ∀ field ∈ fields, field.1 ≠ key := by
        intro field hmem heq
        exact hdistinct.1 (List.mem_map.mpr ⟨field, List.mem_append_right _ hmem, heq⟩)
      obtain ⟨hset, hperm⟩ := @setField_spec key value fields hordered hnew
      have hmiddle : (rest.filterMap stringField ++ setField key value fields).Perm
          ((key, value) :: (rest.filterMap stringField ++ fields)) :=
        (hperm.append_left _).trans List.perm_middle
      obtain ⟨object, hobject, hkeys, hall⟩ := ih
        (fun other hmem => hstrings other (List.mem_cons_of_mem _ hmem))
        ((hmiddle.map Prod.fst).nodup_iff.mpr (by simpa using hdistinct)) hset
      exact ⟨object, hobject, hkeys, hall.trans hmiddle⟩

end Fields

section Elements

/-- The entries of a sequence. -/
def numbered : Int → List Json → List (LuaKey × Json)
  | _, [] => []
  | i, element :: rest => (.integer i, element) :: numbered (i + 1) rest

theorem isArrayFrom_numbered {i : Int} {elements : List Json} (hpositive : 1 ≤ i)
    (hsize : i + elements.length ≤ 2 ^ 31) :
    isArrayFrom i ((numbered i elements).map Prod.fst) = true := by
  induction elements generalizing i with
  | nil => rfl
  | cons element rest ih =>
    rw [List.length_cons] at hsize
    have hkey : toInt i = i := toInt_eq_self.mpr ⟨by omega, by omega⟩
    simp only [numbered, List.map_cons, isArrayFrom, hkey, beq_self_eq_true, Bool.true_and]
    exact ih (by omega) (by push_cast at hsize; omega)

theorem snd_numbered (i : Int) (elements : List Json) :
    (numbered i elements).map Prod.snd = elements := by
  induction elements generalizing i with
  | nil => rfl
  | cons element rest ih => rw [numbered, List.map_cons, ih]

theorem mem_numbered {i : Int} {elements : List Json} {key : LuaKey} :
    key ∈ (numbered i elements).map Prod.fst ↔
      ∃ n : Nat, n < elements.length ∧ key = .integer (i + n) := by
  induction elements generalizing i with
  | nil => simp [numbered]
  | cons element rest ih =>
    rw [numbered, List.map_cons, List.mem_cons, ih]
    constructor
    · rintro (rfl | ⟨n, hn, rfl⟩)
      · exact ⟨0, by simp, by simp⟩
      · refine ⟨n + 1, by simpa using hn, ?_⟩
        push_cast
        rw [Int.add_assoc, Int.add_comm 1]
    · rintro ⟨n, hn, rfl⟩
      cases n with
      | zero => exact .inl (by simp)
      | succ n =>
        refine .inr ⟨n, by simpa using hn, ?_⟩
        push_cast
        rw [Int.add_assoc, Int.add_comm 1]

/-- The keys of an array are the integers they are read as. -/
theorem isArrayFrom_keys {i : Int} {keys : List LuaKey} (hkeys : isArrayFrom i keys = true)
    {key : Int} (hmem : .integer key ∈ keys) : i ≤ toInt key := by
  induction keys generalizing i with
  | nil => simp at hmem
  | cons first rest ih =>
    cases first with
    | string text => cases hkeys
    | integer first =>
      simp only [isArrayFrom, Bool.and_eq_true, beq_iff_eq] at hkeys
      rcases List.mem_cons.mp hmem with heq | hmem
      · cases heq
        omega
      · have hle := ih hkeys.2 hmem
        omega

end Elements

/-- How `lua_next` visits a table: every entry once, and a sequence in its order. -/
structure Visits (next : List (LuaKey × Json) → List (LuaKey × Json)) : Prop where
  perm : ∀ entries, (next entries).Perm entries
  sequence : ∀ entries, isArrayFrom 1 (entries.map Prod.fst) = true → next entries = entries

section Tables
variable {next : List (LuaKey × Json) → List (LuaKey × Json)} (hnext : Visits next)
include hnext

theorem tableToJson_object {fields : List (String × Json)} (hne : fields ≠ [])
    (hordered : KeyOrdered fields) :
    tableToJson next (fields.map fun field => (.string field.1, field.2)) =
      .ok (.object fields) := by
  have hperm := hnext.perm (fields.map fun field => (.string field.1, field.2))
  have hkept : (fields.map fun field => (LuaKey.string field.1, field.2)).filterMap stringField =
      fields := by
    rw [List.filterMap_map]
    exact List.filterMap_some
  have hfields := hperm.filterMap stringField
  rw [hkept] at hfields
  have hstrings : ∀ entry ∈ next (fields.map fun field => (.string field.1, field.2)),
      (stringField entry).isSome := by
    intro entry hmem
    obtain ⟨field, -, rfl⟩ := List.mem_map.mp (hperm.mem_iff.mp hmem)
    rfl
  have hdistinct : (fields.map Prod.fst).Nodup :=
    List.pairwise_map.mpr (hordered.imp fun hlt => hlt.ne)
  obtain ⟨object, hobject, hkeys, hall⟩ := @objectOf_spec [] _ hstrings
    (by rw [List.append_nil]; exact (hfields.map Prod.fst).nodup_iff.mpr hdistinct)
    List.Pairwise.nil
  rw [List.append_nil] at hall
  obtain rfl : object = fields := List.Perm.eq_of_pairwise
    (fun _ _ _ _ hlt hgt => absurd hlt hgt.asymm) hkeys hordered (hall.trans hfields)
  have hnotArray : isArrayFrom 1 ((next (object.map fun field =>
      (.string field.1, field.2))).map Prod.fst) = false := by
    generalize next (object.map fun field => (.string field.1, field.2)) = visited at *
    cases visited with
    | nil => exact absurd hperm.symm.eq_nil (by simpa using hne)
    | cons entry rest =>
      obtain ⟨_ | key, value⟩ := entry
      · simpa [stringField] using hstrings _ List.mem_cons_self
      · rfl
  simp only [tableToJson, hnotArray, hobject]
  rfl

theorem tableToJson_array {elements : List Json} (hsize : elements.length < 2 ^ 31) :
    tableToJson next (numbered 1 elements) = .ok (.array elements) := by
  have harray := @isArrayFrom_numbered 1 elements (Int.le_refl 1) (by omega)
  simp only [tableToJson, hnext.sequence _ harray, harray, if_true, snd_numbered]
  rfl

/-- Past the range of `int` an index no longer counts up, and the table is no array. -/
theorem tableToJson_oversized {elements : List Json} (hsize : ¬ elements.length < 2 ^ 31)
    (doc : Json) : tableToJson next (numbered 1 elements) ≠ .ok doc := by
  have hperm := hnext.perm (numbered 1 elements)
  have hlast : LuaKey.integer (2 ^ 31) ∈ (next (numbered 1 elements)).map Prod.fst :=
    (hperm.map Prod.fst).mem_iff.mpr (mem_numbered.mpr ⟨2 ^ 31 - 1, by omega, by norm_num⟩)
  have hnotArray : isArrayFrom 1 ((next (numbered 1 elements)).map Prod.fst) = false := by
    rw [Bool.eq_false_iff]
    intro harray
    exact absurd (isArrayFrom_keys harray hlast) (by decide)
  have hkeys : ∀ key ∈ (next (numbered 1 elements)).map Prod.fst, ∃ n, key = .integer n := by
    intro key hmem
    obtain ⟨n, -, rfl⟩ := mem_numbered.mp ((hperm.map Prod.fst).mem_iff.mp hmem)
    exact ⟨_, rfl⟩
  simp only [tableToJson, hnotArray]
  generalize next (numbered 1 elements) = visited at *
  cases visited with
  | nil => simp at hlast
  | cons entry rest =>
    obtain ⟨key, value⟩ := entry
    obtain ⟨n, rfl⟩ := hkeys key (by simp)
    intro h
    cases h

end Tables

section Images

mutual

/-- The document a loaded document is dumped as. -/
def image : Json → Json
  | .object [] => .array []
  | .object fields => .object (fieldImages fields)
  | .array elements => .array (elementImages elements)
  | .numberInteger value => .numberFloat (toInt value)
  | .numberUnsigned value => .numberFloat (toUnsignedInt value)
  | doc => doc

def fieldImages : List (String × Json) → List (String × Json)
  | [] => []
  | (key, value) :: rest => (key, image value) :: fieldImages rest

def elementImages : List Json → List Json
  | [] => []
  | value :: rest => image value :: elementImages rest

end

theorem fieldImages_eq (fields : List (String × Json)) :
    fieldImages fields = fields.map fun field => (field.1, image field.2) := by
  induction fields with
  | nil => rfl
  | cons field rest ih => rw [fieldImages, ih, List.map_cons]

theorem elementImages_eq (elements : List Json) : elementImages elements = elements.map image := by
  induction elements with
  | nil => rfl
  | cons element rest ih => rw [elementImages, ih, List.map_cons]

theorem image_object {fields : List (String × Json)} (hne : fields ≠ []) :
    image (.object fields) = .object (fields.map fun field => (field.1, image field.2)) := by
  cases fields with
  | nil => exact absurd rfl hne
  | cons field rest => rw [image, fieldImages_eq]; simp

/-- An array that an `int` can index. -/
def Indexed : Json → Prop
  | .array elements => elements.length < 2 ^ 31
  | _ => True

theorem jsonToLua_ne_nil {doc : Json} (h : NotNull doc) : jsonToLua doc ≠ .nil := by
  cases doc <;> simp_all [jsonToLua, NotNull]

theorem assign_eq {key : LuaKey} {value : LuaValue} (h : value ≠ .nil)
    (entries : List (LuaKey × LuaValue)) : assign key value entries = (key, value) :: entries := by
  cases value <;> simp_all [assign]

variable {next : List (LuaKey × Json) → List (LuaKey × Json)}

/-- The value converts back, to its image, unless an array in it is too long. -/
def Converts (next : List (LuaKey × Json) → List (LuaKey × Json)) (doc : Json) : Prop :=
  ∀ again, luaToJson next (jsonToLua doc) = .ok again ↔ Every Indexed doc ∧ again = image doc

theorem entriesToJson_cons {key : LuaKey} {value : LuaValue}
    {rest : List (LuaKey × LuaValue)} {converted : List (LuaKey × Json)} :
    entriesToJson next ((key, value) :: rest) = .ok converted ↔
      ∃ again others, luaToJson next value = .ok again ∧
        entriesToJson next rest = .ok others ∧ converted = (key, again) :: others := by
  simp only [entriesToJson, bind_eq_ok, pure_eq_ok]
  constructor
  · rintro ⟨again, hagain, others, hothers, rfl⟩
    exact ⟨again, others, hagain, hothers, rfl⟩
  · rintro ⟨again, others, hagain, hothers, rfl⟩
    exact ⟨again, hagain, others, hothers, rfl⟩

theorem entriesToJson_fields {fields : List (String × Json)}
    (h : ∀ field ∈ fields, NotNull field.2 ∧ Converts next field.2)
    (converted : List (LuaKey × Json)) :
    entriesToJson next (fieldsToLua fields) = .ok converted ↔
      (∀ field ∈ fields, Every Indexed field.2) ∧
        converted = fields.map fun field => (.string field.1, image field.2) := by
  induction fields generalizing converted with
  | nil =>
    rw [fieldsToLua, entriesToJson, pure_eq_ok]
    simp [eq_comm]
  | cons field rest ih =>
    obtain ⟨hnull, hconverts⟩ := h field List.mem_cons_self
    have hrest := ih fun other hmem => h other (List.mem_cons_of_mem _ hmem)
    rw [fieldsToLua, assign_eq (jsonToLua_ne_nil hnull), entriesToJson_cons]
    simp only [hconverts _, hrest _, List.forall_mem_cons, List.map_cons]
    constructor
    · rintro ⟨_, _, ⟨hfield, rfl⟩, ⟨hothers, rfl⟩, rfl⟩
      exact ⟨⟨hfield, hothers⟩, rfl⟩
    · rintro ⟨⟨hfield, hothers⟩, rfl⟩
      exact ⟨_, _, ⟨hfield, rfl⟩, ⟨hothers, rfl⟩, rfl⟩

theorem entriesToJson_elements {elements : List Json} {i : Int}
    (h : ∀ element ∈ elements, NotNull element ∧ Converts next element)
    (converted : List (LuaKey × Json)) :
    entriesToJson next (elementsToLua i elements) = .ok converted ↔
      (∀ element ∈ elements, Every Indexed element) ∧
        converted = numbered i (elements.map image) := by
  induction elements generalizing converted i with
  | nil =>
    rw [elementsToLua, entriesToJson, pure_eq_ok]
    simp [numbered, eq_comm]
  | cons element rest ih =>
    obtain ⟨hnull, hconverts⟩ := h element List.mem_cons_self
    have hrest := @ih (i + 1) fun other hmem => h other (List.mem_cons_of_mem _ hmem)
    rw [elementsToLua, assign_eq (jsonToLua_ne_nil hnull), entriesToJson_cons]
    simp only [hconverts _, hrest _, List.forall_mem_cons, List.map_cons, numbered]
    constructor
    · rintro ⟨_, _, ⟨helement, rfl⟩, ⟨hothers, rfl⟩, rfl⟩
      exact ⟨⟨helement, hothers⟩, rfl⟩
    · rintro ⟨⟨helement, hothers⟩, rfl⟩
      exact ⟨_, _, ⟨helement, rfl⟩, ⟨hothers, rfl⟩, rfl⟩

theorem every_self {p : Json → Prop} {doc : Json} (h : Every p doc) : p doc := by
  cases doc with
  | object fields => exact (every_object.mp h).1
  | array elements => exact (every_array.mp h).1
  | _ => exact h _ (List.mem_singleton.mpr rfl)

theorem every_scalar {p : Json → Prop} {doc : Json} (h : doc.values = [doc]) :
    Every p doc ↔ p doc := by
  rw [Every, h, List.forall_mem_singleton]

theorem converts_scalar {doc : Json} (hvalues : doc.values = [doc]) (hindexed : Indexed doc)
    (h : luaToJson next (jsonToLua doc) = .ok (image doc)) : Converts next doc := by
  intro again
  rw [every_scalar hvalues, h]
  constructor
  · intro heq
    exact ⟨hindexed, (Except.ok.inj heq).symm⟩
  · rintro ⟨-, rfl⟩
    rfl

theorem converts (hnext : Visits next) {doc : Json} (hnull : Every NotNull doc)
    (hparsed : Every Parsed doc) : Converts next doc := by
  induction doc using Json.induction with
  | object fields ih =>
    rw [every_object] at hnull hparsed
    have hfields : ∀ field ∈ fields, NotNull field.2 ∧ Converts next field.2 := fun field hmem =>
      ⟨every_self (hnull.2 field hmem), ih field hmem (hnull.2 field hmem) (hparsed.2 field hmem)⟩
    have himage : tableToJson next (fields.map fun field => (.string field.1, image field.2)) =
        .ok (image (.object fields)) := by
      by_cases hempty : fields = []
      · subst hempty
        exact @tableToJson_array _ hnext [] (by simp)
      · have hordered : KeyOrdered (fields.map fun field => (field.1, image field.2)) :=
          List.pairwise_map.mpr hparsed.1
        have hobject := tableToJson_object hnext (by simpa using hempty) hordered
        rw [List.map_map] at hobject
        rw [image_object hempty]
        exact hobject
    intro again
    rw [every_object, jsonToLua, luaToJson, bind_eq_ok]
    simp only [entriesToJson_fields hfields]
    constructor
    · rintro ⟨_, ⟨hindexed, rfl⟩, htable⟩
      exact ⟨⟨trivial, hindexed⟩, Except.ok.inj (htable.symm.trans himage)⟩
    · rintro ⟨⟨-, hindexed⟩, rfl⟩
      exact ⟨_, ⟨hindexed, rfl⟩, himage⟩
  | array elements ih =>
    rw [every_array] at hnull hparsed
    have helements : ∀ element ∈ elements, NotNull element ∧ Converts next element :=
      fun element hmem => ⟨every_self (hnull.2 element hmem),
        ih element hmem (hnull.2 element hmem) (hparsed.2 element hmem)⟩
    have himage : image (.array elements) = .array (elements.map image) := by
      rw [image, elementImages_eq]
    intro again
    rw [every_array, jsonToLua, luaToJson, bind_eq_ok, himage]
    simp only [entriesToJson_elements helements]
    constructor
    · rintro ⟨_, ⟨hindexed, rfl⟩, htable⟩
      by_cases hsize : elements.length < 2 ^ 31
      · rw [tableToJson_array hnext (by simpa using hsize)] at htable
        exact ⟨⟨hsize, hindexed⟩, (Except.ok.inj htable).symm⟩
      · exact absurd htable (tableToJson_oversized hnext (by simpa using hsize) again)
    · rintro ⟨⟨hsize, hindexed⟩, rfl⟩
      exact ⟨_, ⟨hindexed, rfl⟩, tableToJson_array hnext (by simpa [Indexed] using hsize)⟩
  | string text => exact converts_scalar rfl trivial rfl
  | boolean value => exact converts_scalar rfl trivial rfl
  | numberInteger value =>
    exact converts_scalar rfl trivial
      (congrArg (fun x => Except.ok (numberFloat x)) (toDouble_toInt value))
  | numberUnsigned value =>
    exact converts_scalar rfl trivial
      (congrArg (fun x => Except.ok (numberFloat x)) (toDouble_toUnsignedInt value))
  | numberFloat value => exact converts_scalar rfl trivial rfl
  | null => exact absurd (every_self hnull) id

/-- The image says what the document said when every value was kept. -/
theorem image_meaning {doc : Json} :
    (image doc).meaning = doc.meaning ∧ Every Indexed doc ↔ Every Kept doc := by
  induction doc using Json.induction with
  | object fields ih =>
    rw [every_object, every_object]
    by_cases hempty : fields = []
    · subst hempty
      simp [image, meaning, Kept]
    · have hmeaning : (image (.object fields)).meaning = (Json.object fields).meaning ↔
          ∀ field ∈ fields, (image field.2).meaning = field.2.meaning := by
        rw [image_object hempty, meaning, meaning, fieldMeanings_eq, fieldMeanings_eq,
          List.map_map, Json.object.injEq, List.map_inj_left]
        simp
      rw [hmeaning]
      constructor
      · rintro ⟨hsame, -, hindexed⟩
        exact ⟨hempty, fun field hmem => (ih field hmem).mp ⟨hsame field hmem, hindexed field hmem⟩⟩
      · rintro ⟨-, hkept⟩
        exact ⟨fun field hmem => ((ih field hmem).mpr (hkept field hmem)).1, trivial,
          fun field hmem => ((ih field hmem).mpr (hkept field hmem)).2⟩
  | array elements ih =>
    have hmeaning : (image (.array elements)).meaning = (Json.array elements).meaning ↔
        ∀ element ∈ elements, (image element).meaning = element.meaning := by
      rw [image, meaning, meaning, elementImages_eq, elementMeanings_eq, elementMeanings_eq,
        List.map_map, Json.array.injEq, List.map_inj_left]
      simp
    rw [every_array, every_array, hmeaning]
    constructor
    · rintro ⟨hsame, hsize, hindexed⟩
      exact ⟨hsize, fun element hmem =>
        (ih element hmem).mp ⟨hsame element hmem, hindexed element hmem⟩⟩
    · rintro ⟨hsize, hkept⟩
      exact ⟨fun element hmem => ((ih element hmem).mpr (hkept element hmem)).1, hsize,
        fun element hmem => ((ih element hmem).mpr (hkept element hmem)).2⟩
  | numberInteger value =>
    rw [every_scalar rfl, every_scalar rfl]
    simp only [image, meaning, Json.numberFloat.injEq, Indexed, and_true, Kept, ← toInt_eq_self]
    exact Int.cast_inj
  | numberUnsigned value =>
    rw [every_scalar rfl, every_scalar rfl]
    simp only [image, meaning, Json.numberFloat.injEq, Indexed, and_true, Kept]
    exact unsigned_kept
  | _ =>
    rw [every_scalar rfl, every_scalar rfl]
    simp [image, Indexed, Kept]

/-- Loading the image gives the value again. -/
theorem jsonToLua_image (doc : Json) :
    (jsonToLua (image doc)).numeric = (jsonToLua doc).numeric := by
  induction doc using Json.induction with
  | object fields ih =>
    have hfields : LuaValue.numericEntries (fieldsToLua (fieldImages fields)) =
        LuaValue.numericEntries (fieldsToLua fields) := by
      induction fields with
      | nil => rfl
      | cons field rest ihrest =>
        rw [fieldImages, fieldsToLua, fieldsToLua, LuaValue.numericEntries_assign,
          LuaValue.numericEntries_assign, ih field List.mem_cons_self,
          ihrest fun other hmem => ih other (List.mem_cons_of_mem _ hmem)]
    cases fields with
    | nil => rfl
    | cons field rest => exact congrArg LuaValue.table hfields
  | array elements ih =>
    have helements : ∀ i, LuaValue.numericEntries (elementsToLua i (elementImages elements)) =
        LuaValue.numericEntries (elementsToLua i elements) := by
      induction elements with
      | nil => exact fun i => rfl
      | cons element rest ihrest =>
        intro i
        rw [elementImages, elementsToLua, elementsToLua, LuaValue.numericEntries_assign,
          LuaValue.numericEntries_assign, ih element List.mem_cons_self,
          ihrest fun other hmem => ih other (List.mem_cons_of_mem _ hmem)]
    exact congrArg LuaValue.table (helements 1)
  | numberInteger value => rfl
  | numberUnsigned value => rfl
  | _ => rfl

end Images

/-- Loading and dumping a document says what it said, and loading the result again gives an equal
value. -/
def Preserves (next : List (LuaKey × Json) → List (LuaKey × Json)) (doc : Json) : Prop :=
  ∃ again, luaToJson next (jsonToLua doc) = .ok again ∧ again.meaning = doc.meaning ∧
    (jsonToLua again).numeric = (jsonToLua doc).numeric

/-- The bridge preserves a document without null exactly when it keeps every value in it. -/
theorem preserves_iff_kept {next : List (LuaKey × Json) → List (LuaKey × Json)}
    (hnext : Visits next) {doc : Json} (hparsed : Every Parsed doc) (hnull : Every NotNull doc) :
    Preserves next doc ↔ Every Kept doc := by
  have hconverts := converts hnext hnull hparsed
  rw [← image_meaning]
  constructor
  · rintro ⟨again, hagain, hmeaning, -⟩
    obtain ⟨hindexed, rfl⟩ := (hconverts again).mp hagain
    exact ⟨hmeaning, hindexed⟩
  · rintro ⟨hmeaning, hindexed⟩
    exact ⟨image doc, (hconverts _).mpr ⟨hindexed, rfl⟩, hmeaning, jsonToLua_image doc⟩

theorem visits_id : Visits id := ⟨fun _ => List.Perm.refl _, fun _ _ => rfl⟩

/-- A time in seconds and the two ends of the ranges survive. -/
theorem preserves_iff_kept_ids : Preserves id
    (.object [("at", .numberUnsigned 1700000000),
      ("ids", .array [.numberInteger (-1), .numberUnsigned 4294967295])]) :=
  (preserves_iff_kept visits_id (by decide) (by decide)).mpr (by decide)

/-- A time in milliseconds does not survive. -/
theorem not_preserves : ¬ ∀ next doc, Visits next → Every Parsed doc → Every NotNull doc →
    Preserves next doc := by
  intro h
  have hparsed : Every Parsed (.array [.numberUnsigned 1700000000123]) := by decide
  have hnull : Every NotNull (.array [.numberUnsigned 1700000000123]) := by decide
  obtain ⟨again, hagain, hmeaning, -⟩ := h id _ visits_id hparsed hnull
  obtain ⟨hindexed, rfl⟩ := (converts visits_id hnull hparsed again).mp hagain
  exact absurd (image_meaning.mp ⟨hmeaning, hindexed⟩) (by decide)

end Space2.LuaJson
