import Mathlib.Data.List.Basic
import Space2.Base.AliasChain

/-!
# Chains of parents

Members may have a parent, and nothing keeps a chain of parents from running in a cycle.
The nearest common ancestor is looked for along the chain of the first member: every
candidate is sought in the chains of all members, in their order, until one lacks it.
-/

namespace Space2.Base

variable {α : Type} (parent : α → Option α)

/-- The member and its ancestors; with too little fuel nothing. -/
def lineage : Nat → α → Option (List α)
  | 0, _ => none
  | fuel + 1, a =>
    match parent a with
    | none => some [a]
    | some b => (lineage fuel b).map (a :: ·)

theorem lineage_succ (fuel : Nat) (a : α) :
    lineage parent (fuel + 1) a =
      match parent a with
      | none => some [a]
      | some b => (lineage parent fuel b).map (a :: ·) := rfl

def Above (a b : α) : Prop := ∃ n, Hops parent n a b

def Ends (a : α) : Prop := ∃ n last, Hops parent n a last ∧ parent last = none

/-- The ancestors that a family of members shares. -/
def Shared (family : α → Prop) (b : α) : Prop := ∀ a, family a → Above parent a b

/-- A shared ancestor below every other. -/
def Nearest (family : α → Prop) (b : α) : Prop := Shared parent family b ∧ ∀ c, Shared parent family c → Above parent b c

variable {parent} {a b c : α}

/-! ## Lineages -/

theorem Hops.append {n m : Nat} (hab : Hops parent n a b) (hbc : Hops parent m b c) : Hops parent (n + m) a c := by
  induction hab with
  | zero => simpa using hbc
  | @succ n a next b hnext _ ih =>
    have hlength : n + 1 + m = n + m + 1 := by omega
    rw [hlength]
    exact .succ hnext (ih hbc)

theorem Above.refl (a : α) : Above parent a a := ⟨0, .zero a⟩

theorem Above.step (hparent : parent a = some b) (habove : Above parent b c) : Above parent a c := by
  obtain ⟨n, hhops⟩ := habove
  exact ⟨n + 1, .succ hparent hhops⟩

theorem above_iff_of_parent (hparent : parent a = some b) : Above parent a c ↔ c = a ∨ Above parent b c := by
  constructor
  · rintro ⟨n, hhops⟩
    cases hhops with
    | zero => exact .inl rfl
    | succ hnext hrest =>
      obtain rfl := Option.some.inj (hparent.symm.trans hnext)
      exact .inr ⟨_, hrest⟩
  · rintro (rfl | habove)
    · exact Above.refl c
    · exact habove.step hparent

theorem above_iff_of_root (hroot : parent a = none) : Above parent a c ↔ c = a := by
  constructor
  · rintro ⟨n, hhops⟩
    cases hhops with
    | zero => rfl
    | succ hnext => simp [hroot] at hnext
  · rintro rfl
    exact Above.refl c

theorem Ends.antisymm (hends : Ends parent a) (hab : Above parent a b) (hba : Above parent b a) : a = b := by
  obtain ⟨n, last, hlast, hroot⟩ := hends
  obtain ⟨i, hi⟩ := hab
  obtain ⟨j, hj⟩ := hba
  cases hi with
  | zero => rfl
  | succ hnext hrest =>
    exact ((Hops.succ hnext (hrest.append hj)).no_cycle hlast hroot).elim

theorem Ends.of_above (hends : Ends parent a) (habove : Above parent a b) : Ends parent b := by
  obtain ⟨n, last, hlast, hroot⟩ := hends
  obtain ⟨m, hhops⟩ := habove
  obtain ⟨rest, -, hrest⟩ := hhops.split hlast hroot
  exact ⟨rest, last, hrest, hroot⟩

/-- Past a chain that ends, the nearest ancestor is unique. -/
theorem Nearest.unique {family : α → Prop} (hb : Nearest parent family b) (hc : Nearest parent family c)
    (hends : Ends parent b) : b = c :=
  hends.antisymm (hb.2 c hc.1) (hc.2 b hb.1)

theorem mem_lineage {fuel : Nat} {chain : List α} (hchain : lineage parent fuel a = some chain) :
    b ∈ chain ↔ Above parent a b := by
  induction fuel generalizing a chain with
  | zero => cases hchain
  | succ fuel ih =>
    rw [lineage_succ] at hchain
    cases hparent : parent a with
    | none =>
      simp only [hparent, Option.some.injEq] at hchain
      rw [← hchain, above_iff_of_root hparent, List.mem_singleton]
    | some next =>
      simp only [hparent, Option.map_eq_some_iff] at hchain
      obtain ⟨rest, hrest, rfl⟩ := hchain
      rw [above_iff_of_parent hparent, List.mem_cons, ih hrest]

/-- Later members of a lineage are above the earlier ones. -/
theorem lineage_pairwise {fuel : Nat} {chain : List α} (hchain : lineage parent fuel a = some chain) :
    chain.Pairwise (Above parent) := by
  induction fuel generalizing a chain with
  | zero => cases hchain
  | succ fuel ih =>
    rw [lineage_succ] at hchain
    cases hparent : parent a with
    | none =>
      simp only [hparent, Option.some.injEq] at hchain
      rw [← hchain]
      exact List.pairwise_singleton _ _
    | some next =>
      simp only [hparent, Option.map_eq_some_iff] at hchain
      obtain ⟨rest, hrest, rfl⟩ := hchain
      refine List.pairwise_cons.mpr ⟨fun other hother => ?_, ih hrest⟩
      exact ((mem_lineage hrest).mp hother).step hparent

theorem ends_of_lineage {fuel : Nat} (hchain : (lineage parent fuel a).isSome = true) : Ends parent a := by
  induction fuel generalizing a with
  | zero => cases hchain
  | succ fuel ih =>
    rw [lineage_succ] at hchain
    cases hparent : parent a with
    | none => exact ⟨0, a, .zero a, hparent⟩
    | some next =>
      simp only [hparent, Option.isSome_map] at hchain
      obtain ⟨n, last, hlast, hroot⟩ := ih hchain
      exact ⟨n + 1, last, .succ hparent hlast, hroot⟩

theorem lineage_of_hops {n fuel : Nat} (hhops : Hops parent n a b) (hroot : parent b = none) (hfuel : n < fuel) :
    (lineage parent fuel a).isSome = true := by
  induction hhops generalizing fuel with
  | zero =>
    obtain ⟨fuel, rfl⟩ := Nat.exists_eq_add_of_lt hfuel
    rw [Nat.zero_add, lineage_succ, hroot, Option.isSome_some]
  | succ hnext _ ih =>
    cases fuel with
    | zero => omega
    | succ fuel =>
      rw [lineage_succ, hnext, Option.isSome_map]
      exact ih hroot (by omega)

/-- One fuel serves all chains of a list that end. -/
theorem exists_fuel (parent : α → Option α) (members : List α) :
    ∃ fuel, ∀ a ∈ members, Ends parent a → (lineage parent fuel a).isSome = true := by
  suffices hbound : ∃ bound, ∀ fuel, bound ≤ fuel → ∀ a ∈ members, Ends parent a →
      (lineage parent fuel a).isSome = true by
    obtain ⟨bound, hbound⟩ := hbound
    exact ⟨bound, hbound bound (Nat.le_refl bound)⟩
  induction members with
  | nil => exact ⟨0, by simp⟩
  | cons first rest ih =>
    obtain ⟨bound, hrest⟩ := ih
    by_cases hends : Ends parent first
    · obtain ⟨n, last, hlast, hroot⟩ := hends
      refine ⟨max bound (n + 1), fun fuel hfuel a ha ha' => ?_⟩
      rcases List.mem_cons.mp ha with rfl | ha
      · exact lineage_of_hops hlast hroot (by omega)
      · exact hrest fuel (by omega) a ha ha'
    · refine ⟨bound, fun fuel hfuel a ha ha' => ?_⟩
      rcases List.mem_cons.mp ha with rfl | ha
      · exact absurd ha' hends
      · exact hrest fuel hfuel a ha ha'

/-! ## The search -/

section
variable (parent) [DecidableEq α]

def sharedBy (fuel : Nat) (candidate : α) : List α → Option Bool
  | [] => some true
  | a :: rest =>
    match lineage parent fuel a with
    | none => none
    | some chain => if candidate ∈ chain then sharedBy fuel candidate rest else some false

def firstShared (fuel : Nat) (members : List α) : List α → Option (Option α)
  | [] => some none
  | candidate :: rest =>
    match sharedBy parent fuel candidate members with
    | none => none
    | some true => some (some candidate)
    | some false => firstShared fuel members rest

theorem sharedBy_cons (fuel : Nat) (candidate a : α) (rest : List α) :
    sharedBy parent fuel candidate (a :: rest) =
      match lineage parent fuel a with
      | none => none
      | some chain => if candidate ∈ chain then sharedBy parent fuel candidate rest else some false :=
  rfl

theorem firstShared_cons (fuel : Nat) (members : List α) (candidate : α) (rest : List α) :
    firstShared parent fuel members (candidate :: rest) =
      match sharedBy parent fuel candidate members with
      | none => none
      | some true => some (some candidate)
      | some false => firstShared parent fuel members rest := rfl

end

variable [DecidableEq α] {fuel : Nat} {members before after candidates : List α}

theorem sharedBy_spec {found : Bool} (hfound : sharedBy parent fuel c members = some found) :
    found = true ↔ Shared parent (· ∈ members) c := by
  induction members with
  | nil =>
    simp only [sharedBy, Option.some.injEq] at hfound
    simp [Shared, ← hfound]
  | cons a rest ih =>
    rw [sharedBy_cons] at hfound
    cases hchain : lineage parent fuel a with
    | none => simp [hchain] at hfound
    | some chain =>
      simp only [hchain] at hfound
      by_cases hmem : c ∈ chain
      · have habove := (mem_lineage hchain).mp hmem
        rw [if_pos hmem] at hfound
        simp [ih hfound, Shared, habove]
      · have habove : ¬ Above parent a c := fun h => hmem ((mem_lineage hchain).mpr h)
        rw [if_neg hmem] at hfound
        simp only [Option.some.injEq] at hfound
        simp [← hfound, Shared, habove]

/-- The search passes every member whose forerunners all have the candidate. -/
theorem lineage_of_sharedBy (hfound : (sharedBy parent fuel c (before ++ a :: after)).isSome = true)
    (hshared : Shared parent (· ∈ before) c) : (lineage parent fuel a).isSome = true := by
  induction before with
  | nil =>
    rw [List.nil_append, sharedBy_cons] at hfound
    cases hchain : lineage parent fuel a with
    | none => simp [hchain] at hfound
    | some chain => rfl
  | cons first rest ih =>
    rw [List.cons_append, sharedBy_cons] at hfound
    cases hchain : lineage parent fuel first with
    | none => simp [hchain] at hfound
    | some chain =>
      have hmem : c ∈ chain := (mem_lineage hchain).mpr (hshared first List.mem_cons_self)
      simp only [hchain, if_pos hmem] at hfound
      exact ih hfound fun b hb => hshared b (List.mem_cons_of_mem first hb)

theorem firstShared_some (hfound : firstShared parent fuel members candidates = some (some b)) :
    Shared parent (· ∈ members) b ∧ ∃ l r, candidates = l ++ b :: r ∧ ∀ c ∈ l, ¬ Shared parent (· ∈ members) c := by
  induction candidates with
  | nil => cases hfound
  | cons c rest ih =>
    rw [firstShared_cons] at hfound
    cases hc : sharedBy parent fuel c members with
    | none => simp [hc] at hfound
    | some found =>
      cases found with
      | true =>
        simp only [hc, Option.some.injEq] at hfound
        rw [← hfound]
        exact ⟨(sharedBy_spec hc).mp rfl, [], rest, rfl, by simp⟩
      | false =>
        simp only [hc] at hfound
        obtain ⟨hshared, l, r, rfl, hbefore⟩ := ih hfound
        refine ⟨hshared, c :: l, r, rfl, ?_⟩
        intro d hd
        rcases List.mem_cons.mp hd with rfl | hd
        · exact fun h => by simpa using (sharedBy_spec hc).mpr h
        · exact hbefore d hd

theorem firstShared_none (hfound : firstShared parent fuel members candidates = some none) :
    ∀ c ∈ candidates, ¬ Shared parent (· ∈ members) c := by
  induction candidates with
  | nil => simp
  | cons c rest ih =>
    rw [firstShared_cons] at hfound
    cases hc : sharedBy parent fuel c members with
    | none => simp [hc] at hfound
    | some found =>
      cases found with
      | true => simp [hc] at hfound
      | false =>
        simp only [hc] at hfound
        intro d hd
        rcases List.mem_cons.mp hd with rfl | hd
        · exact fun h => by simpa using (sharedBy_spec hc).mpr h
        · exact ih hfound d hd

theorem lineage_of_firstShared (hfound : (firstShared parent fuel (before ++ a :: after) candidates).isSome = true)
    (hc : c ∈ candidates) (hshared : Shared parent (· ∈ before) c) : (lineage parent fuel a).isSome = true := by
  induction candidates with
  | nil => simp at hc
  | cons d rest ih =>
    rw [firstShared_cons] at hfound
    cases hd : sharedBy parent fuel d (before ++ a :: after) with
    | none => simp [hd] at hfound
    | some found =>
      cases found with
      | true =>
        have hall := (sharedBy_spec hd).mp rfl
        exact lineage_of_sharedBy (c := d) (by rw [hd]; rfl) fun b hb => hall b (List.mem_append_left _ hb)
      | false =>
        rcases List.mem_cons.mp hc with rfl | hc
        · exact lineage_of_sharedBy (by rw [hd]; rfl) hshared
        · simp only [hd] at hfound
          exact ih hfound hc

/-! ## The nearest ancestor -/

/-- The search as a whole; `some none` is no shared ancestor. -/
def nearestShared (parent : α → Option α) (fuel : Nat) : List α → Option (Option α)
  | [] => some none
  | first :: rest => (lineage parent fuel first).bind (firstShared parent fuel (first :: rest))

/-- Where the forerunners of a member share an ancestor, the member's own chain ends. -/
def Settles (parent : α → Option α) (members : List α) : Prop :=
  ∀ before a after, members = before ++ a :: after → (∃ c, Shared parent (· ∈ before) c) → Ends parent a

theorem nearest_of_nearestShared (hfound : nearestShared parent fuel members = some (some b)) :
    Nearest parent (· ∈ members) b := by
  cases members with
  | nil => simp [nearestShared] at hfound
  | cons first rest =>
    rw [nearestShared] at hfound
    obtain ⟨chain, hchain, hfound⟩ := Option.bind_eq_some_iff.mp hfound
    obtain ⟨hshared, l, r, hsplit, hbefore⟩ := firstShared_some hfound
    refine ⟨hshared, fun c hc => ?_⟩
    have hmem : c ∈ chain := (mem_lineage hchain).mpr (hc first List.mem_cons_self)
    have horder := lineage_pairwise hchain
    rw [hsplit] at hmem horder
    rcases List.mem_append.mp hmem with hl | hr
    · exact absurd hc (hbefore c hl)
    · rcases List.mem_cons.mp hr with rfl | hr
      · exact Above.refl c
      · exact (List.pairwise_cons.mp (List.pairwise_append.mp horder).2.1).1 c hr

theorem not_shared_of_nearestShared (hne : members ≠ []) (hfound : nearestShared parent fuel members = some none) :
    ¬ Shared parent (· ∈ members) c := by
  cases members with
  | nil => exact absurd rfl hne
  | cons first rest =>
    rw [nearestShared] at hfound
    obtain ⟨chain, hchain, hfound⟩ := Option.bind_eq_some_iff.mp hfound
    intro hc
    exact firstShared_none hfound c ((mem_lineage hchain).mpr (hc first List.mem_cons_self)) hc

theorem sharedBy_isSome (hsettles : Settles parent (before ++ members))
    (hfuel : ∀ a ∈ members, Ends parent a → (lineage parent fuel a).isSome = true)
    (hshared : Shared parent (· ∈ before) c) : (sharedBy parent fuel c members).isSome = true := by
  induction members generalizing before with
  | nil => rfl
  | cons a rest ih =>
    have hends : Ends parent a := hsettles before a rest rfl ⟨c, hshared⟩
    obtain ⟨chain, hchain⟩ := Option.isSome_iff_exists.mp (hfuel a List.mem_cons_self hends)
    simp only [sharedBy_cons, hchain]
    split_ifs with hmem
    · have hsettled : Settles parent ((before ++ [a]) ++ rest) := by
        rwa [List.append_assoc, List.singleton_append]
      apply ih hsettled
      · exact fun b hb => hfuel b (List.mem_cons_of_mem a hb)
      · intro b hb
        rcases List.mem_append.mp hb with hb | hb
        · exact hshared b hb
        · rw [List.mem_singleton.mp hb]
          exact (mem_lineage hchain).mp hmem
    · rfl

/-- The search ends exactly when no chain that it enters is a cycle. -/
theorem nearestShared_isSome_iff :
    (∃ fuel, (nearestShared parent fuel members).isSome = true) ↔ Settles parent members := by
  constructor
  · rintro ⟨fuel, hfound⟩ before a after hsplit ⟨c, hshared⟩
    cases members with
    | nil => simp at hsplit
    | cons first rest =>
      rw [nearestShared] at hfound
      obtain ⟨found, hfound⟩ := Option.isSome_iff_exists.mp hfound
      obtain ⟨chain, hchain, hfound⟩ := Option.bind_eq_some_iff.mp hfound
      rw [hsplit] at hfound
      cases before with
      | nil =>
        obtain ⟨rfl, -⟩ := List.cons.inj hsplit
        exact ends_of_lineage (by rw [hchain]; rfl)
      | cons second others =>
        obtain ⟨rfl, -⟩ := List.cons.inj hsplit
        have hmem : c ∈ chain := (mem_lineage hchain).mpr (hshared first List.mem_cons_self)
        exact ends_of_lineage (lineage_of_firstShared (by rw [hfound]; rfl) hmem hshared)
  · intro hsettles
    obtain ⟨fuel, hfuel⟩ := exists_fuel parent members
    refine ⟨fuel, ?_⟩
    cases members with
    | nil => rfl
    | cons first rest =>
      have hends : Ends parent first := hsettles [] first rest rfl ⟨first, by simp [Shared]⟩
      obtain ⟨chain, hchain⟩ := Option.isSome_iff_exists.mp (hfuel first List.mem_cons_self hends)
      rw [nearestShared, hchain, Option.bind_some]
      clear hchain
      induction chain with
      | nil => rfl
      | cons c others ih =>
        have hsettled : Settles parent ([] ++ first :: rest) := hsettles
        have hsome : (sharedBy parent fuel c (first :: rest)).isSome = true :=
          sharedBy_isSome hsettled hfuel (by simp [Shared])
        obtain ⟨found, hfound⟩ := Option.isSome_iff_exists.mp hsome
        cases found with
        | true => simp [firstShared_cons, hfound]
        | false => simpa [firstShared_cons, hfound] using ih

end Space2.Base
