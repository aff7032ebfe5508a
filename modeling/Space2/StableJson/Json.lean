import Space2.StableJson.Values

/-!
# Stable JSON

The text of a record does not depend on the order of its entries: they are written in the order of
their keys. The printer of doubles is that of the JSON library.
-/
namespace Space2.StableJson
open Base

/-- The bytes of a number's text. -/
def isNumeric (c : UInt8) : Bool := (48 ≤ c && c < 58) || c = 43 || c = 45 || c = 46 || c = 101

/-- What the printer of doubles provides: a number can be read back from its text, and the text is
made of digits, signs, a point and an exponent mark. -/
structure RoundTrips (dumpFloat : FiniteDouble → Bytes) : Prop where
  injective : Function.Injective dumpFloat
  ne_nil : ∀ x, dumpFloat x ≠ []
  numeric : ∀ x, ∀ c ∈ dumpFloat x, isNumeric c = true

/-- `table.concat` with a comma. -/
def concat : List Bytes → Bytes
  | [] => []
  | [part] => part
  | part :: parts => part ++ 44 :: concat parts

section Writing
variable (dumpFloat : FiniteDouble → Bytes)

mutual

def stableJson : Value → Except String Bytes
  | .string s => dumpString s
  | .boolean b => pure (if b then [116, 114, 117, 101] else [102, 97, 108, 115, 101])
  | .number n => pure (dumpFloat n.double)
  | .array items => do pure (91 :: concat (← (itemTexts items).mapM id) ++ [93])
  | .object [] => pure [91, 93]  -- a table without entries passes for an array
  | .object (field :: fields) => do
    let parts ← (sortedKeys (fieldTexts (field :: fields))).mapM fun field => do
      pure ((← dumpString field.1) ++ 58 :: (← field.2))
    pure (123 :: concat parts ++ [125])

def itemTexts : List Value → List (Except String Bytes)
  | [] => []
  | v :: items => stableJson v :: itemTexts items

def fieldTexts : List (Bytes × Value) → List (Bytes × Except String Bytes)
  | [] => []
  | (key, v) :: fields => (key, stableJson v) :: fieldTexts fields

end

/-- A member of an object. -/
def fieldText (field : Bytes × Value) : Except String Bytes := do
  pure ((← dumpString field.1) ++ 58 :: (← stableJson dumpFloat field.2))

end Writing

section Texts
variable {dumpFloat : FiniteDouble → Bytes} {items : List Value} {fields : List (Bytes × Value)}

theorem itemTexts_eq : itemTexts dumpFloat items = items.map (stableJson dumpFloat) := by
  induction items with
  | nil => rfl
  | cons v items ih => rw [itemTexts, ih, List.map_cons]

theorem fieldTexts_eq :
    fieldTexts dumpFloat fields = fields.map (Prod.map id (stableJson dumpFloat)) := by
  induction fields with
  | nil => rfl
  | cons field fields ih => rw [fieldTexts, ih, List.map_cons]; rfl

theorem mapM_map {α β γ : Type} (f : α → β) (g : β → Except String γ) (l : List α) :
    (l.map f).mapM g = l.mapM fun a => g (f a) := by
  induction l with
  | nil => rfl
  | cons a l ih => simp only [List.map_cons, List.mapM_cons, ih]

theorem stableJson_array :
    stableJson dumpFloat (.array items) =
      (do pure (91 :: concat (← items.mapM (stableJson dumpFloat)) ++ [93])) := by
  rw [stableJson, itemTexts_eq, mapM_map]
  rfl

theorem stableJson_object (h : fields ≠ []) :
    stableJson dumpFloat (.object fields) =
      (do pure (123 :: concat (← (sortedKeys fields).mapM (fieldText dumpFloat)) ++ [125])) := by
  cases fields with
  | nil => exact absurd rfl h
  | cons field fields =>
    rw [stableJson, fieldTexts_eq, sortedKeys_map, mapM_map]
    rfl

end Texts

section Totality
variable {dumpFloat : FiniteDouble → Bytes}

theorem dumpString_total {s : Bytes} : (∃ text, dumpString s = .ok text) ↔ isUtf8 s = true := by
  simp only [dumpString_eq_ok, exists_and_left, exists_eq, and_true]

theorem mapM_succeeds {α : Type} {f : α → Except String Bytes} {l : List α} :
    (∃ parts, l.mapM f = .ok parts) ↔ ∀ a ∈ l, ∃ text, f a = .ok text := by
  constructor
  · rintro ⟨parts, hparts⟩ a ha
    obtain ⟨text, -, htext⟩ := (forall₂_members (mapM_eq_ok.mp hparts)).1 a ha
    exact ⟨text, htext⟩
  · exact mapM_total

theorem fieldText_total {field : Bytes × Value} :
    (∃ text, fieldText dumpFloat field = .ok text) ↔
      isUtf8 field.1 = true ∧ ∃ text, stableJson dumpFloat field.2 = .ok text := by
  simp only [fieldText, bind_eq_ok, pure_eq_ok, ← dumpString_total]
  constructor
  · rintro ⟨_, key, hkey, text, htext, -⟩
    exact ⟨⟨key, hkey⟩, text, htext⟩
  · rintro ⟨⟨key, hkey⟩, text, htext⟩
    exact ⟨_, key, hkey, text, htext, rfl⟩

/-- The text is written unless a string or a key is not UTF-8. -/
theorem stableJson_total (v : Value) :
    (∃ text, stableJson dumpFloat v = .ok text) ↔ v.encoded = true := by
  induction v using Value.induction with
  | string s => rw [stableJson, Value.encoded, dumpString_total]
  | boolean b => simp [stableJson, Value.encoded]
  | number n => simp [stableJson, Value.encoded]
  | array items ih =>
    rw [Value.encoded, Value.encodedItems_iff, stableJson_array]
    simp only [bind_eq_ok, pure_eq_ok, ↓existsAndEq, and_true]
    rw [mapM_succeeds]
    exact forall₂_congr ih
  | object fields ih =>
    by_cases hempty : fields = []
    · subst hempty
      simp [stableJson, Value.encoded, Value.encodedFields]
    · rw [Value.encoded, Value.encodedFields_iff, stableJson_object hempty]
      simp only [bind_eq_ok, pure_eq_ok, ↓existsAndEq, and_true]
      rw [mapM_succeeds]
      simp only [mem_sortedKeys, fieldText_total]
      exact forall₂_congr fun field hfield => and_congr_right fun _ => ih field hfield

end Totality

section Agreement
variable {dumpFloat : FiniteDouble → Bytes}

/-- Numbers that are converted to one double. -/
def sameDouble (n n' : Number) : Bool := n.double = n'.double

theorem mapM_congr {α : Type} {f : α → Except String Bytes} {l l' : List α}
    (h : List.Forall₂ (fun a b => f a = f b) l l') : l.mapM f = l'.mapM f := by
  induction h with
  | nil => rfl
  | cons hfirst _ ih => rw [List.mapM_cons, List.mapM_cons, hfirst, ih]

theorem empty_iff {fields fields' : List (Bytes × Value)}
    (h : Value.agree sameDouble (.object fields) (.object fields') = true) :
    fields = [] ↔ fields' = [] := by
  rw [Value.agree, Bool.and_eq_true, decide_eq_true_iff] at h
  rw [← List.length_eq_zero_iff, ← List.length_eq_zero_iff, h.1]

/-- Values that agree have one text. -/
theorem stableJson_of_agree {v w : Value} (hv : v.distinctKeys = true) (hw : w.distinctKeys = true)
    (h : Value.agree sameDouble v w = true) : stableJson dumpFloat v = stableJson dumpFloat w := by
  induction v using Value.induction generalizing w with
  | string s =>
    cases w <;> simp only [Value.agree, Bool.false_eq_true, decide_eq_true_iff] at h
    rw [h]
  | boolean b =>
    cases w <;> simp only [Value.agree, Bool.false_eq_true, decide_eq_true_iff] at h
    rw [h]
  | number n =>
    cases w <;> simp only [Value.agree, sameDouble, Bool.false_eq_true, decide_eq_true_iff] at h
    rw [stableJson, stableJson, h]
  | array items ih =>
    cases w with
    | array items' =>
      rw [Value.distinctKeys, Value.distinctItems_iff] at hv hw
      rw [Value.agree, Value.agreeItems_iff, List.forall₂_iff_zip] at h
      rw [stableJson_array, stableJson_array]
      congr 1
      refine mapM_congr (List.forall₂_iff_zip.mpr ⟨h.1, fun {v w} hzip => ?_⟩)
      obtain ⟨hitem, hitem'⟩ := List.of_mem_zip hzip
      exact ih v hitem (hv v hitem) (hw w hitem') (h.2 hzip)
    | object fields =>
      simp only [Value.agree, Bool.and_eq_true, List.isEmpty_iff] at h
      rw [h.1, h.2]
      rfl
    | string s => simp [Value.agree] at h
    | boolean b => simp [Value.agree] at h
    | number n => simp [Value.agree] at h
  | object fields ih =>
    cases w with
    | object fields' =>
      by_cases hempty : fields = []
      · rw [hempty, (empty_iff h).mp hempty]
      · have hempty' : fields' ≠ [] := fun hnil => hempty ((empty_iff h).mpr hnil)
        simp only [Value.distinctKeys, Value.distinctFields_iff, Bool.and_eq_true,
          decide_eq_true_iff] at hv hw
        rw [Value.agree_object hv.1 hw.1, List.forall₂_iff_zip] at h
        rw [stableJson_object hempty, stableJson_object hempty']
        congr 1
        refine mapM_congr (List.forall₂_iff_zip.mpr ⟨h.1, fun {a b} hzip => ?_⟩)
        obtain ⟨ha, hb⟩ := List.of_mem_zip hzip
        rw [mem_sortedKeys] at ha hb
        obtain ⟨hkey, hagree⟩ := h.2 hzip
        rw [fieldText, fieldText, hkey, ih a ha (hv.2 a ha) (hw.2 b hb) hagree]
    | array items =>
      simp only [Value.agree, Bool.and_eq_true, List.isEmpty_iff] at h
      rw [h.1, h.2]
      rfl
    | string s => simp [Value.agree] at h
    | boolean b => simp [Value.agree] at h
    | number n => simp [Value.agree] at h

end Agreement

section Reading
variable {dumpFloat : FiniteDouble → Bytes}

/-- What may follow the text of a value. -/
def Ends (rest : Bytes) : Prop := ∀ c ∈ rest.head?, c = 44 ∨ c = 93 ∨ c = 125

/-- The kind of value that a byte starts. -/
def kindOf (c : UInt8) : Nat :=
  if c = 34 then 0 else if c = 116 ∨ c = 102 then 1 else if isNumeric c then 2
  else if c = 91 then 3 else if c = 123 then 4 else 5

def kind : Value → Nat
  | .string _ => 0
  | .boolean _ => 1
  | .number _ => 2
  | .array _ => 3
  | .object fields => if fields.isEmpty then 3 else 4

theorem kind_lt (v : Value) : kind v < 5 := by
  cases v <;> simp only [kind] <;> try omega
  split_ifs <;> omega

theorem kind_object_ge (fields : List (Bytes × Value)) : 3 ≤ kind (.object fields) := by
  rw [kind]
  split_ifs <;> omega

theorem kindOf_numeric : ∀ n < 256, isNumeric (.ofNat n) = true → kindOf (.ofNat n) = 2 := by
  decide +kernel

theorem kindOf_of_numeric {c : UInt8} (h : isNumeric c = true) : kindOf c = 2 := by
  have hc := kindOf_numeric c.toNat c.toNat_lt
  rw [UInt8.ofNat_toNat] at hc
  exact hc h

/-- The text of a value starts with a byte that says of which kind it is. -/
theorem text_head (hdump : RoundTrips dumpFloat) {v : Value} {text : Bytes}
    (h : stableJson dumpFloat v = .ok text) : ∃ c rest, text = c :: rest ∧ kindOf c = kind v := by
  cases v with
  | string s =>
    obtain ⟨-, rfl⟩ := dumpString_eq_ok.mp h
    exact ⟨34, _, rfl, rfl⟩
  | boolean b =>
    cases pure_eq_ok.mp h
    cases b
    · exact ⟨102, _, rfl, rfl⟩
    · exact ⟨116, _, rfl, rfl⟩
  | number n =>
    cases pure_eq_ok.mp h
    obtain ⟨c, rest, htext⟩ := List.exists_cons_of_ne_nil (hdump.ne_nil n.double)
    exact ⟨c, rest, htext, kindOf_of_numeric (hdump.numeric _ c (htext ▸ List.mem_cons_self))⟩
  | array items =>
    rw [stableJson_array, bind_eq_ok] at h
    obtain ⟨parts, -, hparts⟩ := h
    cases pure_eq_ok.mp hparts
    exact ⟨91, _, rfl, rfl⟩
  | object fields =>
    by_cases hempty : fields = []
    · subst hempty
      cases pure_eq_ok.mp h
      exact ⟨91, _, rfl, rfl⟩
    · rw [stableJson_object hempty, bind_eq_ok] at h
      obtain ⟨parts, -, hparts⟩ := h
      cases pure_eq_ok.mp hparts
      refine ⟨123, _, rfl, ?_⟩
      rw [kind, if_neg (by simpa using hempty)]
      rfl

theorem takeWhile_numeric {a r : Bytes} (ha : ∀ c ∈ a, isNumeric c = true) (hr : Ends r) :
    (a ++ r).takeWhile isNumeric = a := by
  rw [List.takeWhile_append_of_pos ha]
  cases r with
  | nil => simp
  | cons c r =>
    have hc : isNumeric c = false := by
      rcases hr c rfl with rfl | rfl | rfl <;> rfl
    simp [hc]

/-- The parts after the first one, each with its comma. -/
theorem concat_cons (part : Bytes) (parts : List Bytes) :
    concat (part :: parts) = part ++ parts.flatMap fun part => 44 :: part := by
  induction parts generalizing part with
  | nil => simp [concat]
  | cons next parts ih =>
    change part ++ 44 :: concat (next :: parts) = _
    rw [ih, List.flatMap_cons, List.cons_append]

theorem ends_parts (parts : List Bytes) {close : UInt8} (hclose : close = 93 ∨ close = 125)
    (r : Bytes) : Ends ((parts.flatMap fun part => 44 :: part) ++ close :: r) := by
  intro c hc
  cases parts with
  | nil =>
    obtain rfl : close = c := by simpa using hc
    exact .inr hclose
  | cons part parts =>
    obtain rfl : 44 = c := by simpa using hc
    exact .inl rfl

section Parts
variable {α : Type} {write : α → Except String Bytes} {R : α → α → Prop} {close : UInt8}
  {l l' : List α} {parts parts' : List Bytes} {r s : Bytes}

/-- Members whose texts can be told apart are told apart in a list, up to the bracket. -/
theorem parts_inj (hclose : close = 93 ∨ close = 125)
    (hread : ∀ a ∈ l, ∀ b ∈ l', ∀ text text' r s, write a = .ok text → write b = .ok text' →
      text ++ r = text' ++ s → Ends r → Ends s → R a b ∧ r = s)
    (hl : l.mapM write = .ok parts) (hl' : l'.mapM write = .ok parts')
    (h : (parts.flatMap fun part => 44 :: part) ++ close :: r =
      (parts'.flatMap fun part => 44 :: part) ++ close :: s) : List.Forall₂ R l l' ∧ r = s := by
  have hcomma : close ≠ 44 := by rcases hclose with rfl | rfl <;> decide
  induction l generalizing l' parts parts' with
  | nil =>
    cases pure_eq_ok.mp hl
    cases l' with
    | nil =>
      cases pure_eq_ok.mp hl'
      exact ⟨.nil, (List.cons.inj h).2⟩
    | cons b l' =>
      simp only [List.mapM_cons, bind_eq_ok, pure_eq_ok] at hl'
      obtain ⟨part', -, rest', -, rfl⟩ := hl'
      exact absurd (List.cons.inj h).1 hcomma
  | cons a l ih =>
    simp only [List.mapM_cons, bind_eq_ok, pure_eq_ok] at hl
    obtain ⟨part, hpart, rest, hrest, rfl⟩ := hl
    cases l' with
    | nil =>
      cases pure_eq_ok.mp hl'
      exact absurd (List.cons.inj h).1 hcomma.symm
    | cons b l' =>
      simp only [List.mapM_cons, bind_eq_ok, pure_eq_ok] at hl'
      obtain ⟨part', hpart', rest', hrest', rfl⟩ := hl'
      simp only [List.flatMap_cons, List.cons_append, List.append_assoc] at h
      obtain ⟨hR, htail⟩ := hread a List.mem_cons_self b List.mem_cons_self part part' _ _ hpart
        hpart' (List.cons.inj h).2 (ends_parts rest hclose r) (ends_parts rest' hclose s)
      obtain ⟨hall, rfl⟩ := ih (fun a ha b hb => hread a (List.mem_cons_of_mem _ ha) b
        (List.mem_cons_of_mem _ hb)) hrest hrest' htail
      exact ⟨.cons hR hall, rfl⟩

theorem concat_inj (hclose : close = 93 ∨ close = 125)
    (hstart : ∀ a text, write a = .ok text → ∃ c rest, text = c :: rest ∧ c ≠ 93 ∧ c ≠ 125)
    (hread : ∀ a ∈ l, ∀ b ∈ l', ∀ text text' r s, write a = .ok text → write b = .ok text' →
      text ++ r = text' ++ s → Ends r → Ends s → R a b ∧ r = s)
    (hl : l.mapM write = .ok parts) (hl' : l'.mapM write = .ok parts')
    (h : concat parts ++ close :: r = concat parts' ++ close :: s) :
    List.Forall₂ R l l' ∧ r = s := by
  have hfirst : ∀ c : UInt8, c ≠ 93 → c ≠ 125 → c ≠ close := by
    intro c h93 h125
    rcases hclose with rfl | rfl
    · exact h93
    · exact h125
  cases l with
  | nil =>
    cases pure_eq_ok.mp hl
    cases l' with
    | nil =>
      cases pure_eq_ok.mp hl'
      exact ⟨.nil, (List.cons.inj h).2⟩
    | cons b l' =>
      simp only [List.mapM_cons, bind_eq_ok, pure_eq_ok] at hl'
      obtain ⟨part', hpart', rest', -, rfl⟩ := hl'
      obtain ⟨c, text, rfl, h93, h125⟩ := hstart b part' hpart'
      rw [concat_cons] at h
      exact absurd (List.cons.inj h).1.symm (hfirst c h93 h125)
  | cons a l =>
    simp only [List.mapM_cons, bind_eq_ok, pure_eq_ok] at hl
    obtain ⟨part, hpart, rest, hrest, rfl⟩ := hl
    cases l' with
    | nil =>
      cases pure_eq_ok.mp hl'
      obtain ⟨c, text, rfl, h93, h125⟩ := hstart a part hpart
      rw [concat_cons] at h
      exact absurd (List.cons.inj h).1 (hfirst c h93 h125)
    | cons b l' =>
      simp only [List.mapM_cons, bind_eq_ok, pure_eq_ok] at hl'
      obtain ⟨part', hpart', rest', hrest', rfl⟩ := hl'
      rw [concat_cons, concat_cons, List.append_assoc, List.append_assoc] at h
      obtain ⟨hR, htail⟩ := hread a List.mem_cons_self b List.mem_cons_self part part' _ _ hpart
        hpart' h (ends_parts rest hclose r) (ends_parts rest' hclose s)
      obtain ⟨hall, rfl⟩ := parts_inj hclose (fun a ha b hb => hread a (List.mem_cons_of_mem _ ha) b
        (List.mem_cons_of_mem _ hb)) hrest hrest' htail
      exact ⟨.cons hR hall, rfl⟩

end Parts

theorem text_start (hdump : RoundTrips dumpFloat) (v : Value) (text : Bytes)
    (h : stableJson dumpFloat v = .ok text) : ∃ c rest, text = c :: rest ∧ c ≠ 93 ∧ c ≠ 125 := by
  obtain ⟨c, rest, htext, hkind⟩ := text_head hdump h
  have hlt := kind_lt v
  refine ⟨c, rest, htext, ?_, ?_⟩
  · rintro rfl
    exact absurd hlt (by rw [← hkind]; decide)
  · rintro rfl
    exact absurd hlt (by rw [← hkind]; decide)

theorem fieldText_eq_ok {field : Bytes × Value} {text : Bytes}
    (h : fieldText dumpFloat field = .ok text) : ∃ value, stableJson dumpFloat field.2 = .ok value ∧
      text = 34 :: (field.1.flatMap byteText ++ 34 :: 58 :: value) := by
  simp only [fieldText, bind_eq_ok, pure_eq_ok] at h
  obtain ⟨key, hkey, value, hvalue, rfl⟩ := h
  obtain ⟨-, rfl⟩ := dumpString_eq_ok.mp hkey
  exact ⟨value, hvalue, by simp⟩

theorem fieldText_start (field : Bytes × Value) (text : Bytes)
    (h : fieldText dumpFloat field = .ok text) :
    ∃ c rest, text = c :: rest ∧ c ≠ 93 ∧ c ≠ 125 := by
  obtain ⟨value, -, rfl⟩ := fieldText_eq_ok h
  exact ⟨34, _, rfl, by decide, by decide⟩

/-- A text, wherever it ends, says which value it is of. -/
def Readable (dumpFloat : FiniteDouble → Bytes) (v w : Value) : Prop :=
  ∀ text text' r s, stableJson dumpFloat v = .ok text → stableJson dumpFloat w = .ok text' →
    text ++ r = text' ++ s → Ends r → Ends s → Value.agree sameDouble v w = true ∧ r = s

theorem readable_array (items items' : List Value) (hdump : RoundTrips dumpFloat)
    (ih : ∀ v ∈ items, ∀ w ∈ items', Readable dumpFloat v w) :
    Readable dumpFloat (.array items) (.array items') := by
  intro text text' r s htext htext' h hr hs
  rw [stableJson_array, bind_eq_ok] at htext htext'
  obtain ⟨parts, hparts, hpure⟩ := htext
  obtain ⟨parts', hparts', hpure'⟩ := htext'
  cases pure_eq_ok.mp hpure
  cases pure_eq_ok.mp hpure'
  rw [List.cons_append, List.cons_append, List.append_assoc, List.append_assoc] at h
  rw [Value.agree, Value.agreeItems_iff]
  exact concat_inj (.inl rfl) (text_start hdump) ih hparts hparts' (List.cons.inj h).2

theorem readable_object {fields fields' : List (Bytes × Value)}
    (h : (fields.map Prod.fst).Nodup) (h' : (fields'.map Prod.fst).Nodup)
    (hne : fields ≠ []) (hne' : fields' ≠ [])
    (ih : ∀ a ∈ fields, ∀ b ∈ fields', Readable dumpFloat a.2 b.2) :
    Readable dumpFloat (.object fields) (.object fields') := by
  intro text text' r s htext htext' heq hr hs
  rw [stableJson_object hne, bind_eq_ok] at htext
  rw [stableJson_object hne', bind_eq_ok] at htext'
  obtain ⟨parts, hparts, hpure⟩ := htext
  obtain ⟨parts', hparts', hpure'⟩ := htext'
  cases pure_eq_ok.mp hpure
  cases pure_eq_ok.mp hpure'
  rw [List.cons_append, List.cons_append, List.append_assoc, List.append_assoc] at heq
  rw [Value.agree_object h h']
  refine concat_inj (.inr rfl) fieldText_start ?_ hparts hparts' (List.cons.inj heq).2
  intro a ha b hb text text' r s ha' hb' heq hr hs
  obtain ⟨value, hvalue, rfl⟩ := fieldText_eq_ok ha'
  obtain ⟨value', hvalue', rfl⟩ := fieldText_eq_ok hb'
  simp only [List.cons_append, List.append_assoc] at heq
  obtain ⟨hkey, hrest⟩ := quoted_inj (List.cons.inj heq).2
  obtain ⟨hagree, rfl⟩ := ih a (mem_sortedKeys.mp ha) b (mem_sortedKeys.mp hb) value value' r s
    hvalue hvalue' (List.cons.inj hrest).2 hr hs
  exact ⟨⟨hkey, hagree⟩, rfl⟩

/-- Texts of values of different kinds start differently. -/
theorem readable_of_kind (hdump : RoundTrips dumpFloat) {v w : Value}
    (h : kind v = kind w → Readable dumpFloat v w) : Readable dumpFloat v w := by
  intro text text' r s htext htext' heq
  refine h ?_ text text' r s htext htext' heq
  obtain ⟨c, rest, rfl, hc⟩ := text_head hdump htext
  obtain ⟨c', rest', rfl, hc'⟩ := text_head hdump htext'
  rw [← hc, ← hc', (List.cons.inj heq).1]

theorem readable_string {a b : Bytes} : Readable dumpFloat (.string a) (.string b) := by
  intro text text' r s htext htext' h hr hs
  obtain ⟨-, rfl⟩ := dumpString_eq_ok.mp htext
  obtain ⟨-, rfl⟩ := dumpString_eq_ok.mp htext'
  have hquoted : a.flatMap byteText ++ 34 :: r = b.flatMap byteText ++ 34 :: s := by simpa using h
  obtain ⟨rfl, rfl⟩ := quoted_inj hquoted
  exact ⟨by simp [Value.agree], rfl⟩

theorem readable_boolean {a b : Bool} : Readable dumpFloat (.boolean a) (.boolean b) := by
  intro text text' r s htext htext' h hr hs
  cases pure_eq_ok.mp htext
  cases pure_eq_ok.mp htext'
  cases a <;> cases b <;> simp_all [Value.agree]

theorem readable_number (hdump : RoundTrips dumpFloat) {m n : Number} :
    Readable dumpFloat (.number m) (.number n) := by
  intro text text' r s htext htext' h hr hs
  cases pure_eq_ok.mp htext
  cases pure_eq_ok.mp htext'
  have hsame := congrArg (List.takeWhile isNumeric) h
  rw [takeWhile_numeric (hdump.numeric _) hr, takeWhile_numeric (hdump.numeric _) hs] at hsame
  rw [hsame, List.append_cancel_left_eq] at h
  exact ⟨by simp [Value.agree, sameDouble, hdump.injective hsame], h⟩

/-- An object without entries passes for an array without items. -/
theorem agree_empty (v : Value) :
    Value.agree sameDouble (.object []) v = Value.agree sameDouble (.array []) v ∧
      Value.agree sameDouble v (.object []) = Value.agree sameDouble v (.array []) := by
  cases v with
  | array items => cases items <;> exact ⟨rfl, rfl⟩
  | object fields => cases fields <;> simp [Value.agree, Value.agreeFields]
  | _ => exact ⟨rfl, rfl⟩

theorem readable_empty {v : Value} :
    (Readable dumpFloat (.object []) v ↔ Readable dumpFloat (.array []) v) ∧
      (Readable dumpFloat v (.object []) ↔ Readable dumpFloat v (.array [])) := by
  have htext : stableJson dumpFloat (.object []) = stableJson dumpFloat (.array []) := rfl
  simp only [Readable, htext, agree_empty, and_self]

theorem kind_object_iff {fields : List (Bytes × Value)} : kind (.object fields) = 3 ↔ fields = [] := by
  rw [kind, ← List.isEmpty_iff]
  split_ifs with hempty <;> simp [hempty]

theorem reads (hdump : RoundTrips dumpFloat) (v w : Value) (hv : v.distinctKeys = true)
    (hw : w.distinctKeys = true) : Readable dumpFloat v w := by
  refine readable_of_kind hdump fun hkind => ?_
  induction v using Value.induction generalizing w with
  | string a =>
    cases w with
    | string b => exact readable_string
    | object fields => exact absurd (kind_object_ge fields) (by rw [← hkind]; simp [kind])
    | _ => simp [kind] at hkind
  | boolean a =>
    cases w with
    | boolean b => exact readable_boolean
    | object fields => exact absurd (kind_object_ge fields) (by rw [← hkind]; simp [kind])
    | _ => simp [kind] at hkind
  | number m =>
    cases w with
    | number n => exact readable_number hdump
    | object fields => exact absurd (kind_object_ge fields) (by rw [← hkind]; simp [kind])
    | _ => simp [kind] at hkind
  | array items ih =>
    rw [Value.distinctKeys, Value.distinctItems_iff] at hv
    cases w with
    | array items' =>
      rw [Value.distinctKeys, Value.distinctItems_iff] at hw
      exact readable_array items items' hdump fun v hitem w hitem' =>
        readable_of_kind hdump (ih v hitem w (hv v hitem) (hw w hitem'))
    | object fields =>
      obtain rfl := kind_object_iff.mp hkind.symm
      exact readable_empty.2.mpr (readable_array items [] hdump fun _ _ _ hitem' => by simp at hitem')
    | _ => simp [kind] at hkind
  | object fields ih =>
    by_cases hempty : fields = []
    · subst hempty
      rw [readable_empty.1]
      cases w with
      | array items' =>
        exact readable_array [] items' hdump fun _ hitem _ _ => by simp at hitem
      | object fields' =>
        obtain rfl := kind_object_iff.mp hkind.symm
        exact readable_empty.2.mpr (readable_array [] [] hdump fun _ hitem _ _ => by simp at hitem)
      | _ => simp [kind] at hkind
    · cases w with
      | object fields' =>
        have hempty' : fields' ≠ [] := by
          rintro rfl
          exact hempty (kind_object_iff.mp hkind)
        simp only [Value.distinctKeys, Value.distinctFields_iff, Bool.and_eq_true,
          decide_eq_true_iff] at hv hw
        exact readable_object hv.1 hw.1 hempty hempty' fun a ha b hb =>
          readable_of_kind hdump (ih a ha b.2 (hv.2 a ha) (hw.2 b hb))
      | array items' => exact absurd (kind_object_iff.mp hkind) hempty
      | _ => exact absurd (kind_object_ge fields) (by rw [hkind]; simp [kind])

end Reading

/-- Texts of records are equal when and only when the records agree. -/
theorem stableJson_eq_iff {dumpFloat : FiniteDouble → Bytes} (hdump : RoundTrips dumpFloat)
    {v w : Value} (hv : v.distinctKeys = true) (hw : w.distinctKeys = true)
    (hencoded : v.encoded = true) :
    stableJson dumpFloat v = stableJson dumpFloat w ↔ Value.agree sameDouble v w = true := by
  refine ⟨fun heq => ?_, stableJson_of_agree hv hw⟩
  obtain ⟨text, htext⟩ : ∃ text, stableJson dumpFloat v = .ok text :=
    (stableJson_total v).mpr hencoded
  exact (reads hdump v w hv hw text text [] [] htext (heq ▸ htext) rfl (by simp [Ends])
    (by simp [Ends])).1

end Space2.StableJson
