import Space2.Base.Double
import Space2.Base.TableSort
import Space2.StableJson.Strings

/-!
# Records

A record is built of strings, booleans, finite numbers, contiguous arrays and objects with string
keys. An object holds its entries in the order in which `pairs` visits them. Two values agree when
they have the same structure and a given relation holds between their numbers, in whatever order
their entries come.
-/
namespace Space2.StableJson
open Base

/-- Whether a number is one of 53 significant bits, in the range of a double's exponents. -/
def Representable (x : ℚ) : Prop :=
  ∃ m : Nat, ∃ e : Int, m < 2 ^ 53 ∧ -1074 ≤ e ∧ e ≤ 971 ∧ x = m * 2 ^ e

theorem representable_scaled {m k : Nat} (hm : m ≤ 2 ^ 53) (hk : k ≤ 11) :
    Representable ((m * 2 ^ k : Nat) : ℚ) := by
  rcases hm.lt_or_eq with hlt | rfl
  · exact ⟨m, k, hlt, by omega, by omega, by push_cast; rw [zpow_natCast]⟩
  · refine ⟨2 ^ 52, (k + 1 : Nat), by decide, by omega, by omega, ?_⟩
    rw [zpow_natCast]
    push_cast
    ring

/-- A rounded integer has 53 significant bits. -/
theorem representable_roundNat {n : Nat} (hn : n ≤ 2 ^ 63) : Representable (roundNat n) := by
  rw [roundNat]
  split_ifs with hsmall
  · simpa using representable_scaled hsmall.le (Nat.zero_le 11)
  · dsimp only
    have hne : n ≠ 0 := by omega
    have hlog : n.log2 < 64 := (Nat.log2_lt hne).mpr (by omega)
    have hpower : 2 ^ (n.log2 + 1) = 2 ^ 53 * 2 ^ (n.log2 - 52) := by
      have hlow : 53 ≤ n.log2 := (Nat.le_log2 hne).mpr (by omega)
      rw [← pow_add]
      congr 1
      omega
    have hquotient : n / 2 ^ (n.log2 - 52) < 2 ^ 53 :=
      Nat.div_lt_of_lt_mul (by rw [Nat.mul_comm, ← hpower]; exact Nat.lt_log2_self)
    split_ifs
    · exact representable_scaled hquotient.le (by omega)
    · exact representable_scaled hquotient (by omega)

/-- A finite double, whose zero has a sign. -/
structure FiniteDouble where
  negative : Bool
  magnitude : ℚ
  representable : Representable magnitude
  deriving DecidableEq

def FiniteDouble.value (x : FiniteDouble) : ℚ := if x.negative then -x.magnitude else x.magnitude

/-- The double that an integer is converted to. -/
def FiniteDouble.ofInteger (n : Int64) : FiniteDouble where
  negative := n < 0
  magnitude := roundNat n.toInt.natAbs
  representable := representable_roundNat (by have := n.le_toInt; have := n.toInt_lt; omega)

inductive Number where
  | integer (value : Int64)
  | float (value : FiniteDouble)

namespace Number

def double : Number → FiniteDouble
  | integer n => .ofInteger n
  | float x => x

/-- The number that Lua compares. -/
def value : Number → ℚ
  | integer n => n.toInt
  | float x => x.value

end Number

inductive Value where
  | string (text : Bytes)
  | boolean (value : Bool)
  | number (value : Number)
  | array (items : List Value)
  | object (fields : List (Bytes × Value))

namespace Value

theorem induction {P : Value → Prop} (string : ∀ text, P (.string text))
    (boolean : ∀ value, P (.boolean value)) (number : ∀ value, P (.number value))
    (array : ∀ items, (∀ item ∈ items, P item) → P (.array items))
    (object : ∀ fields, (∀ field ∈ fields, P field.2) → P (.object fields)) (v : Value) : P v :=
  @Value.rec P (fun items => ∀ item ∈ items, P item) (fun fields => ∀ field ∈ fields, P field.2)
    (fun field => P field.2) string boolean number array object
    (by simp) (fun _ _ hitem hrest => List.forall_mem_cons.mpr ⟨hitem, hrest⟩)
    (by simp) (fun _ _ hfield hrest => List.forall_mem_cons.mpr ⟨hfield, hrest⟩)
    (fun _ _ hvalue => hvalue) v

section Agreement
variable (same : Number → Number → Bool)

mutual

def agree : Value → Value → Bool
  | string s, string s' => s = s'
  | boolean b, boolean b' => b = b'
  | number n, number n' => same n n'
  | array items, array items' => agreeItems items items'
  | object fields, object fields' => fields.length = fields'.length && agreeFields fields fields'
  | array items, object fields => items.isEmpty && fields.isEmpty
  | object fields, array items => fields.isEmpty && items.isEmpty
  | _, _ => false

def agreeItems : List Value → List Value → Bool
  | [], [] => true
  | v :: items, v' :: items' => agree v v' && agreeItems items items'
  | _, _ => false

def agreeFields : List (Bytes × Value) → List (Bytes × Value) → Bool
  | [], _ => true
  | (key, v) :: rest, fields =>
    (match fields.lookup key with
      | some v' => agree v v'
      | none => false) && agreeFields rest fields

end

end Agreement

section Shape

mutual

/-- No object has two entries at one key. -/
def distinctKeys : Value → Bool
  | array items => distinctItems items
  | object fields => decide (fields.map Prod.fst).Nodup && distinctFields fields
  | _ => true

def distinctItems : List Value → Bool
  | [] => true
  | v :: items => distinctKeys v && distinctItems items

def distinctFields : List (Bytes × Value) → Bool
  | [] => true
  | (_, v) :: rest => distinctKeys v && distinctFields rest

end

mutual

/-- Every string and every key is UTF-8. -/
def encoded : Value → Bool
  | string s => isUtf8 s
  | array items => encodedItems items
  | object fields => encodedFields fields
  | _ => true

def encodedItems : List Value → Bool
  | [] => true
  | v :: items => encoded v && encodedItems items

def encodedFields : List (Bytes × Value) → Bool
  | [] => true
  | (key, v) :: rest => isUtf8 key && encoded v && encodedFields rest

end

variable {items : List Value} {fields : List (Bytes × Value)}

theorem distinctItems_iff : distinctItems items = true ↔ ∀ v ∈ items, v.distinctKeys = true := by
  induction items with
  | nil => simp [distinctItems]
  | cons v items ih => simp [distinctItems, ih]

theorem distinctFields_iff :
    distinctFields fields = true ↔ ∀ field ∈ fields, field.2.distinctKeys = true := by
  induction fields with
  | nil => simp [distinctFields]
  | cons field fields ih => simp only [distinctFields, Bool.and_eq_true, ih, List.forall_mem_cons]

theorem encodedItems_iff : encodedItems items = true ↔ ∀ v ∈ items, v.encoded = true := by
  induction items with
  | nil => simp [encodedItems]
  | cons v items ih => simp [encodedItems, ih]

theorem encodedFields_iff : encodedFields fields = true ↔
    ∀ field ∈ fields, isUtf8 field.1 = true ∧ field.2.encoded = true := by
  induction fields with
  | nil => simp [encodedFields]
  | cons field fields ih =>
    simp only [encodedFields, Bool.and_eq_true, ih, List.forall_mem_cons]

end Shape

end Value

section Order

instance byteOrder : LinearOrder UInt8 where
  le := (· ≤ ·)
  lt := (· < ·)
  le_refl _ := UInt8.le_refl _
  le_trans _ _ _ := UInt8.le_trans
  lt_iff_le_not_ge a b := by
    rw [UInt8.not_le]
    exact ⟨fun h => ⟨UInt8.le_of_lt h, h⟩, And.right⟩
  le_antisymm _ _ := UInt8.le_antisymm
  le_total := UInt8.le_total
  toDecidableLE := inferInstance
  toDecidableLT := inferInstance

end Order

/-- The keys in the order in which they are written. -/
def sortedKeys {α : Type} (fields : List (Bytes × α)) : List (Bytes × α) :=
  tableSort (fun a b => decide (a.1 < b.1)) fields

section Sorting
variable {α β : Type} {fields : List (Bytes × α)} {fields' : List (Bytes × β)}

theorem sortedKeys_perm (fields : List (Bytes × α)) : (sortedKeys fields).Perm fields :=
  tableSort_perm _ fields

theorem sortedKeys_strict (h : (fields.map Prod.fst).Nodup) :
    (sortedKeys fields).Pairwise fun a b => a.1 < b.1 :=
  tableSort_strict (fun _ _ => decide_eq_true_iff) h

theorem sortedKeys_map (f : α → β) (fields : List (Bytes × α)) :
    sortedKeys (fields.map (Prod.map id f)) = (sortedKeys fields).map (Prod.map id f) := by
  symm
  exact List.map_insertionSort _ _ _ _ fun a _ b _ => by simp

theorem mem_sortedKeys {field : Bytes × α} : field ∈ sortedKeys fields ↔ field ∈ fields :=
  mem_tableSort

theorem lookup_eq_some {key : Bytes} {value : α} (h : (fields.map Prod.fst).Nodup) :
    fields.lookup key = some value ↔ (key, value) ∈ fields := by
  induction fields with
  | nil => simp
  | cons field fields ih =>
    obtain ⟨key', value'⟩ := field
    obtain ⟨hnew, hrest⟩ := List.nodup_cons.mp h
    rw [List.lookup_cons, List.mem_cons, Prod.mk.injEq]
    by_cases hkey : key = key'
    · subst hkey
      have hout : (key, value) ∉ fields := fun hmem =>
        hnew (List.mem_map.mpr ⟨(key, value), hmem, rfl⟩)
      simp [hout, eq_comm]
    · rw [show (key == key') = false by simpa using hkey, ih hrest]
      simp [hkey]

/-- Two sorted lists with partners at every key go side by side. -/
theorem forall₂_sortedKeys {R : α → β → Prop} (h : (fields.map Prod.fst).Nodup)
    (h' : (fields'.map Prod.fst).Nodup) :
    List.Forall₂ (fun a b => a.1 = b.1 ∧ R a.2 b.2) (sortedKeys fields) (sortedKeys fields') ↔
      fields.length = fields'.length ∧ ∀ a ∈ fields, ∃ b ∈ fields', a.1 = b.1 ∧ R a.2 b.2 := by
  constructor
  · intro hall
    refine ⟨?_, fun a ha => ?_⟩
    · have hlength := hall.length_eq
      rwa [(sortedKeys_perm fields).length_eq, (sortedKeys_perm fields').length_eq] at hlength
    · obtain ⟨b, hb, hab⟩ := (forall₂_members hall).1 a (mem_sortedKeys.mpr ha)
      exact ⟨b, mem_sortedKeys.mp hb, hab⟩
  · rintro ⟨hlength, hpartner⟩
    have hperm : (fields.map Prod.fst).Perm (fields'.map Prod.fst) := by
      refine (h.subperm fun key hkey => ?_).perm_of_length_le (by simp [hlength])
      obtain ⟨a, ha, rfl⟩ := List.mem_map.mp hkey
      obtain ⟨b, hb, hab, -⟩ := hpartner a ha
      exact hab ▸ List.mem_map_of_mem hb
    have hkeys : (sortedKeys fields).map Prod.fst = (sortedKeys fields').map Prod.fst := by
      refine List.Perm.eq_of_pairwise (fun a b _ _ hab hba => absurd hab hba.asymm)
        (List.pairwise_map.mpr (sortedKeys_strict h)) (List.pairwise_map.mpr (sortedKeys_strict h'))
        ?_
      exact ((sortedKeys_perm fields).map _).trans
        (hperm.trans ((sortedKeys_perm fields').map _).symm)
    have hsame : List.Forall₂ (fun a b => a.1 = b.1) (sortedKeys fields) (sortedKeys fields') := by
      rw [← List.forall₂_eq_eq_eq, List.forall₂_map_left_iff, List.forall₂_map_right_iff] at hkeys
      exact hkeys
    refine List.forall₂_iff_zip.mpr ⟨hsame.length_eq, fun {a b} hab => ?_⟩
    have hkey : a.1 = b.1 := List.forall₂_zip hsame hab
    obtain ⟨ha, hb⟩ := List.of_mem_zip hab
    obtain ⟨b', hb', hab', hR⟩ := hpartner a (mem_sortedKeys.mp ha)
    obtain rfl : b = b' :=
      List.inj_on_of_nodup_map h' (mem_sortedKeys.mp hb) hb' (hkey.symm.trans hab')
    exact ⟨hkey, hR⟩

end Sorting

namespace Value
variable {same : Number → Number → Bool} {fields fields' : List (Bytes × Value)}

theorem agreeItems_iff {items items' : List Value} :
    agreeItems same items items' = true ↔
      List.Forall₂ (fun v v' => agree same v v' = true) items items' := by
  induction items generalizing items' with
  | nil => cases items' <;> simp [agreeItems]
  | cons v items ih => cases items' <;> simp [agreeItems, ih]

theorem agreeFields_iff (h' : (fields'.map Prod.fst).Nodup) :
    agreeFields same fields fields' = true ↔
      ∀ a ∈ fields, ∃ b ∈ fields', a.1 = b.1 ∧ agree same a.2 b.2 = true := by
  induction fields with
  | nil => simp [agreeFields]
  | cons field fields ih =>
    obtain ⟨key, v⟩ := field
    rw [agreeFields, Bool.and_eq_true, ih, List.forall_mem_cons]
    refine and_congr_left fun _ => ?_
    constructor
    · intro hfound
      cases hlookup : fields'.lookup key with
      | none => simp [hlookup] at hfound
      | some v' =>
        rw [hlookup] at hfound
        exact ⟨(key, v'), (lookup_eq_some h').mp hlookup, rfl, hfound⟩
    · rintro ⟨⟨_, v'⟩, hmem, rfl, hagree⟩
      rw [(lookup_eq_some h').mpr hmem]
      exact hagree

/-- Objects agree when their entries do, side by side in the order of their keys. -/
theorem agree_object (h : (fields.map Prod.fst).Nodup) (h' : (fields'.map Prod.fst).Nodup) :
    agree same (object fields) (object fields') = true ↔
      List.Forall₂ (fun a b => a.1 = b.1 ∧ agree same a.2 b.2 = true)
        (sortedKeys fields) (sortedKeys fields') := by
  rw [agree, Bool.and_eq_true, decide_eq_true_iff, agreeFields_iff h']
  exact (forall₂_sortedKeys (R := fun v v' => agree same v v' = true) h h').symm

end Value

end Space2.StableJson
