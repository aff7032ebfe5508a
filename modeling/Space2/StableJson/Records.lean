import Space2.Base.Numerals
import Space2.StableJson.Json

/-!
# Checks of durable records

The check of a record that is kept as JSON is its stable text. JSON null is refused before the text
is parsed, outside of quotation marks.
-/
namespace Space2.StableJson
open Base

/-- A table holds no two entries at one key. -/
abbrev Record := { v : Value // v.distinctKeys = true }

section Checks
variable (dumpFloat : FiniteDouble → Bytes) (loads : Bytes → Except String Record)

/-- The first byte of `null` outside of quotation marks, counted from `index`. -/
def unquotedNull : Bool → Bool → Nat → Bytes → Option Nat
  | _, _, _, [] => none
  | quoted, escaped, index, char :: rest =>
    if escaped then unquotedNull quoted false (index + 1) rest
    else if quoted && char = 92 then unquotedNull quoted true (index + 1) rest
    else if char = 34 then unquotedNull (!quoted) escaped (index + 1) rest
    else if !quoted && (char :: rest).take 4 = [110, 117, 108, 108] then some index
    else unquotedNull quoted escaped (index + 1) rest

def decodeJson (bytes : Bytes) : Except String Record :=
  match unquotedNull false false 1 bytes with
  | some index => .error ("unsupported JSON null in strict record at byte " ++ toString index ++
      "; native bridge cannot preserve null")
  | none => loads bytes

/-- `check-bytes`; a record that is not there has no bytes. -/
def checkBytes (bytes : Option Bytes) (format : String) : Except String (Option Bytes) := do
  ensure (format = "json" ∨ format = "string") "unsupported record format"
  match bytes with
  | none => pure none
  | some bytes =>
    if format = "json" then do
      let record ← decodeJson loads bytes
      pure (some (← stableJson dumpFloat record.1))
    else pure (some bytes)

end Checks

variable {dumpFloat : FiniteDouble → Bytes} {loads : Bytes → Except String Record}

theorem checkBytes_json {bytes : Bytes} {record : Record} (h : decodeJson loads bytes = .ok record) :
    checkBytes dumpFloat loads (some bytes) "json" = some <$> stableJson dumpFloat record.1 := by
  simp only [checkBytes, ensure, h]
  rfl

theorem stableJson_perm {fields fields' : List (Bytes × Value)} (hperm : fields.Perm fields')
    (h : (fields.map Prod.fst).Nodup) :
    stableJson dumpFloat (.object fields) = stableJson dumpFloat (.object fields') := by
  have hsorted : sortedKeys fields = sortedKeys fields' := by
    refine List.Perm.eq_of_pairwise (fun a b _ _ hab hba => absurd hab hba.asymm)
      (sortedKeys_strict h) (sortedKeys_strict ((hperm.map Prod.fst).nodup_iff.mp h)) ?_
    exact ((sortedKeys_perm fields).trans hperm).trans (sortedKeys_perm fields').symm
  by_cases hempty : fields = []
  · subst hempty
    rw [hperm.nil_eq]
  · have hempty' : fields' ≠ [] := by
      rintro rfl
      exact hempty hperm.eq_nil
    rw [stableJson_object hempty, stableJson_object hempty', hsorted]

/-- Stable JSON identifies records, with every number read as a double. -/
theorem stable_json_identifies (hdump : RoundTrips dumpFloat) :
    (∀ v : Record, (∃ text, stableJson dumpFloat v.1 = .ok text) ↔ v.1.encoded = true) ∧
    (∀ v w : Record, v.1.encoded = true → w.1.encoded = true →
      (stableJson dumpFloat v.1 = stableJson dumpFloat w.1 ↔
        Value.agree sameDouble v.1 w.1 = true)) ∧
    (∀ fields fields', fields.Perm fields' → (Value.object fields).distinctKeys = true →
      stableJson dumpFloat (.object fields) = stableJson dumpFloat (.object fields')) ∧
    ∀ loads bytes bytes' v w, decodeJson loads bytes = .ok v → decodeJson loads bytes' = .ok w →
      v.1.encoded = true → w.1.encoded = true →
      (checkBytes dumpFloat loads (some bytes) "json" =
        checkBytes dumpFloat loads (some bytes') "json" ↔
          Value.agree sameDouble v.1 w.1 = true) := by
  refine ⟨fun v => stableJson_total v.1, fun v w hv _ => stableJson_eq_iff hdump v.2 w.2 hv, ?_, ?_⟩
  · intro fields fields' hperm hdistinct
    rw [Value.distinctKeys, Bool.and_eq_true, decide_eq_true_iff] at hdistinct
    exact stableJson_perm hperm hdistinct.1
  · intro loads bytes bytes' v w hbytes hbytes' hv hw
    obtain ⟨text, htext⟩ : ∃ text, stableJson dumpFloat v.1 = .ok text :=
      (stableJson_total v.1).mpr hv
    obtain ⟨text', htext'⟩ : ∃ text, stableJson dumpFloat w.1 = .ok text :=
      (stableJson_total w.1).mpr hw
    rw [checkBytes_json hbytes, checkBytes_json hbytes', ← stableJson_eq_iff hdump v.2 w.2 hv,
      htext, htext']
    simp [Functor.map, Except.map]

section Plain

/-- The text of a double as a quotient: an integer ends with a point and a zero. -/
def plainDigits (n : Nat) : Bytes :=
  (if n = 0 then [0] else bigEndian 10 n).map fun d => .ofNat (48 + d)

def plainFloat (x : FiniteDouble) : Bytes :=
  (if x.negative then [45] else []) ++ (plainDigits x.magnitude.num.natAbs ++
    if x.magnitude.den = 1 then [46, 48] else 101 :: plainDigits x.magnitude.den)

def isDigit (c : UInt8) : Bool := 48 ≤ c && c < 58

theorem plainDigits_digit (n : Nat) : ∀ c ∈ plainDigits n, isDigit c = true := by
  intro c hc
  obtain ⟨d, hd, rfl⟩ := List.mem_map.mp hc
  have hlt : d < 10 := by
    split_ifs at hd with hzero
    · obtain rfl := List.mem_singleton.mp hd
      decide
    · exact mem_bigEndian_lt (by decide) hd
  interval_cases d <;> rfl

theorem plainDigits_value (n : Nat) :
    Nat.ofDigits 10 ((plainDigits n).map fun c => c.toNat - 48).reverse = n := by
  have hread : ∀ l : List Nat, (∀ d ∈ l, d < 10) →
      (l.map fun d => UInt8.ofNat (48 + d)).map (fun c => c.toNat - 48) = l := by
    intro l hl
    rw [List.map_map]
    refine (List.map_congr_left fun d hd => ?_).trans l.map_id
    have hlt := hl d hd
    interval_cases d <;> rfl
  rw [plainDigits]
  split_ifs with hzero
  · rw [hzero]
    rfl
  · rw [hread _ fun d hd => mem_bigEndian_lt (by decide) hd, bigEndian, List.reverse_reverse,
      Nat.ofDigits_digits]

theorem plainDigits_inj {n n' : Nat} (h : plainDigits n = plainDigits n') : n = n' := by
  rw [← plainDigits_value n, h, plainDigits_value]

theorem plainDigits_ne_nil (n : Nat) : plainDigits n ≠ [] := by
  intro h
  have hvalue := plainDigits_value n
  rw [h] at hvalue
  obtain rfl : 0 = n := hvalue
  exact absurd h (by decide)

theorem takeWhile_plainDigits (n : Nat) {r : Bytes} (hr : ∀ c ∈ r.head?, isDigit c = false) :
    (plainDigits n ++ r).takeWhile isDigit = plainDigits n := by
  rw [List.takeWhile_append_of_pos (plainDigits_digit n)]
  cases r with
  | nil => simp
  | cons c r => simp [hr c rfl]

theorem plainDigits_append_inj {n n' : Nat} {r r' : Bytes} (hr : ∀ c ∈ r.head?, isDigit c = false)
    (hr' : ∀ c ∈ r'.head?, isDigit c = false) (h : plainDigits n ++ r = plainDigits n' ++ r') :
    n = n' ∧ r = r' := by
  have hdigits := congrArg (List.takeWhile isDigit) h
  rw [takeWhile_plainDigits n hr, takeWhile_plainDigits n' hr'] at hdigits
  rw [hdigits, List.append_cancel_left_eq] at h
  exact ⟨plainDigits_inj hdigits, h⟩

theorem magnitude_nonneg (x : FiniteDouble) : 0 ≤ x.magnitude := by
  obtain ⟨m, e, -, -, -, hvalue⟩ := x.representable
  rw [hvalue]
  positivity

theorem unsigned_inj {p q : ℚ} (hp : 0 ≤ p) (hq : 0 ≤ q)
    (h : plainDigits p.num.natAbs ++ (if p.den = 1 then [46, 48] else 101 :: plainDigits p.den) =
      plainDigits q.num.natAbs ++ (if q.den = 1 then [46, 48] else 101 :: plainDigits q.den)) :
    p = q := by
  have hhead : ∀ n : Nat, ∀ c ∈ (if n = 1 then [46, 48] else 101 :: plainDigits n).head?,
      isDigit c = false := by
    intro n c hc
    split_ifs at hc <;> obtain rfl := Option.some.inj hc <;> rfl
  obtain ⟨hnum, hden⟩ := plainDigits_append_inj (hhead p.den) (hhead q.den) h
  have hp' := Rat.num_nonneg.mpr hp
  have hq' := Rat.num_nonneg.mpr hq
  have hdens : p.den = q.den := by
    split_ifs at hden with hone hone' hone'
    · rw [hone, hone']
    · exact absurd (List.cons.inj hden).1 (by decide)
    · exact absurd (List.cons.inj hden).1 (by decide)
    · exact plainDigits_inj (List.cons.inj hden).2
  exact Rat.ext (by omega) hdens

theorem plainFloat_injective : Function.Injective plainFloat := by
  have hsign : ∀ n : Nat, ∀ r s : Bytes, plainDigits n ++ r ≠ 45 :: s := by
    intro n r s h
    obtain ⟨c, rest, hdigits⟩ := List.exists_cons_of_ne_nil (plainDigits_ne_nil n)
    have hc := plainDigits_digit n c (hdigits ▸ List.mem_cons_self)
    rw [hdigits] at h
    rw [(List.cons.inj h).1] at hc
    exact absurd hc (by decide)
  rintro ⟨negative, p, hp⟩ ⟨negative', q, hq⟩ h
  have hp0 := magnitude_nonneg ⟨negative, p, hp⟩
  have hq0 := magnitude_nonneg ⟨negative', q, hq⟩
  cases negative <;> cases negative'
  · obtain rfl := unsigned_inj hp0 hq0 h
    rfl
  · exact absurd h (hsign _ _ _)
  · exact absurd h.symm (hsign _ _ _)
  · obtain rfl := unsigned_inj hp0 hq0 (List.cons.inj h).2
    rfl

theorem plainFloat_roundTrips : RoundTrips plainFloat where
  injective := plainFloat_injective
  ne_nil x h := by
    obtain ⟨-, hrest⟩ := List.append_eq_nil_iff.mp h
    exact plainDigits_ne_nil _ (List.append_eq_nil_iff.mp hrest).1
  numeric x c hc := by
    have hdigit : ∀ n, ∀ c ∈ plainDigits n, isNumeric c = true := by
      intro n c hc
      have hc := plainDigits_digit n c hc
      rw [isDigit] at hc
      simp [isNumeric, hc]
    rw [plainFloat, List.mem_append, List.mem_append] at hc
    rcases hc with hc | hc | hc
    · split_ifs at hc
      · obtain rfl := List.mem_singleton.mp hc
        rfl
      · exact absurd hc List.not_mem_nil
    · exact hdigit _ c hc
    · split_ifs at hc
      · obtain rfl | rfl : c = 46 ∨ c = 48 := by simpa using hc
        · rfl
        · rfl
      · rcases List.mem_cons.mp hc with rfl | hc
        · rfl
        · exact hdigit _ c hc

end Plain

section Examples

def onePoint : FiniteDouble := ⟨false, 1, 1, 0, by decide, by decide, by decide, by norm_num⟩

def first : Value :=
  .object [([98], .number (.integer 1)), ([97], .array [.boolean true, .string [195, 169]])]

def second : Value :=
  .object [([97], .array [.boolean true, .string [195, 169]]), ([98], .number (.float onePoint))]

theorem stable_json_identifies_two :
    stableJson plainFloat first = stableJson plainFloat second ∧
      Value.agree sameDouble first second = true := by
  have hagree : Value.agree sameDouble first second = true := by
    decide +kernel
  exact ⟨((stable_json_identifies plainFloat_roundTrips).2.1 ⟨first, rfl⟩ ⟨second, rfl⟩
    (by decide +kernel) (by decide +kernel)).mpr hagree, hagree⟩

/-- An integer of more than 53 bits has the text of its neighbour. -/
theorem neighbours_share_text :
    ¬ (stableJson plainFloat (.number (.integer 9007199254740992)) =
        stableJson plainFloat (.number (.integer 9007199254740993)) ↔
      Value.agree (fun m n => decide (m.value = n.value)) (.number (.integer 9007199254740992))
        (.number (.integer 9007199254740993)) = true) := by
  have hdouble : FiniteDouble.ofInteger 9007199254740992 =
      FiniteDouble.ofInteger 9007199254740993 := by
    decide +kernel
  have htexts : stableJson plainFloat (.number (.integer 9007199254740992)) =
      stableJson plainFloat (.number (.integer 9007199254740993)) := by
    rw [stableJson, stableJson, Number.double, Number.double, hdouble]
  rw [iff_true_left htexts]
  decide +kernel

end Examples

end Space2.StableJson
