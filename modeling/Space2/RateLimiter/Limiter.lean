import Space2.Base.Runs
import Space2.Base.Spacing

/-!
# The rate limiter

Callers over the limit are told to wait until the earliest recorded release is a
window old, and their release is recorded at once in the same list.
-/
namespace Space2.RateLimiter

open Space2.Base

structure Limiter (K : Type*) where
  limit : Nat
  windowMs : K
  timestamps : List K
  positive : 0 < limit

variable {K : Type*} [AddCommGroup K] [LinearOrder K]

def rateLimiter (limit : Nat) (windowMs : K) : Except String (Limiter K) :=
  if positive : 0 < limit then .ok { limit, windowMs, timestamps := [], positive }
  else .error "RateLimiter requires :limit > 0"

namespace Limiter

def prune (now : K) (s : Limiter K) : Limiter K :=
  { s with timestamps := s.timestamps.dropWhile fun recorded => decide (s.windowMs < now - recorded) }

def insert (s : Limiter K) (release : K) : Limiter K :=
  { s with timestamps := s.timestamps ++ [release] }

/-- The delay of a caller over the limit; the limit is positive, so a release is recorded. -/
def delay (now : K) (s : Limiter K) (hfull : s.limit ≤ s.timestamps.length) : K :=
  let earliest := s.timestamps.head
    (List.ne_nil_of_length_pos (Nat.lt_of_lt_of_le s.positive hfull))
  let target := earliest + s.windowMs
  max 0 (target - now)

def acquire (now : K) (limiter : Limiter K) : K × Limiter K :=
  let s := limiter.prune now
  if hfull : s.limit ≤ s.timestamps.length then
    (s.delay now hfull, s.insert (now + s.delay now hfull))
  else (0, s.insert now)

/-- The state after a call at the time `now`. -/
def called (s : Limiter K) (now : K) : Limiter K := (s.acquire now).2

/-- The release times of the calls at the given times. -/
def releases (s : Limiter K) : List K → List K
  | [] => []
  | now :: rest => (now + (s.acquire now).1) :: (s.called now).releases rest

/-- A call that finds `limit` releases or more not older than the window: the earliest of them
is as late as the `limit`-th latest. -/
def AtLimit (s : Limiter K) (now : K) : Prop :=
  s.limit ≤ (s.prune now).timestamps.length →
    (s.prune now).timestamps[(s.prune now).timestamps.length - s.limit]? =
      (s.prune now).timestamps.head?

instance (s : Limiter K) (now : K) : Decidable (s.AtLimit now) :=
  inferInstanceAs (Decidable (_ → _))

end Limiter

/-! ## The releases so far -/

/-- The release times handed out until `now`, as the record and what was dropped of it. -/
structure Handed (s : Limiter K) (now : K) (past : List K) : Prop where
  ascending : (past ++ s.timestamps).Pairwise (· ≤ ·)
  old : ∀ r ∈ past, r + s.windowMs < now
  reached : ∀ r ∈ past ++ s.timestamps, r ≤ now ∨
    s.limit < s.timestamps.length ∧ ∃ earliest ∈ s.timestamps.head?, r ≤ earliest + s.windowMs

variable [IsOrderedAddMonoid K] {s : Limiter K} {now now' : K} {past : List K}

/-- What holds between the pruning and the new record. -/
structure Pruned (s : Limiter K) (now : K) (past : List K) : Prop where
  ascending : (past ++ s.timestamps).Pairwise (· ≤ ·)
  old : ∀ r ∈ past, r + s.windowMs < now
  recent : ∀ earliest ∈ s.timestamps.head?, now ≤ earliest + s.windowMs
  reached : ∀ r ∈ past ++ s.timestamps, r ≤ now ∨
    s.limit ≤ s.timestamps.length ∧ ∃ earliest ∈ s.timestamps.head?, r ≤ earliest + s.windowMs

theorem Handed.prune (h : Handed s now past) (hlater : now ≤ now') :
    ∃ dropped, s.timestamps = dropped ++ (s.prune now').timestamps ∧
      Pruned (s.prune now') now' (past ++ dropped) := by
  obtain ⟨dropped, hdropped⟩ : ∃ dropped, dropped =
      s.timestamps.takeWhile fun recorded => decide (s.windowMs < now' - recorded) := ⟨_, rfl⟩
  have hsplit : s.timestamps = dropped ++ (s.prune now').timestamps := by
    rw [hdropped]
    exact List.takeWhile_append_dropWhile.symm
  have hdroppedOld : ∀ r ∈ dropped, r + s.windowMs < now' := by
    intro r hr
    rw [hdropped] at hr
    have hage := List.mem_takeWhile_imp hr
    rwa [decide_eq_true_eq, lt_sub_iff_add_lt, add_comm] at hage
  refine ⟨dropped, hsplit, ?_, ?_, ?_, ?_⟩
  · rw [List.append_assoc, ← hsplit]
    exact h.ascending
  · intro r hr
    rcases List.mem_append.mp hr with hpast | hnew
    · exact (h.old r hpast).trans_le hlater
    · exact hdroppedOld r hnew
  · intro earliest hearliest
    have hkept := List.head?_dropWhile_not
      (fun recorded => decide (s.windowMs < now' - recorded)) s.timestamps
    change (s.timestamps.dropWhile _).head? = some earliest at hearliest
    rw [hearliest] at hkept
    have hage : ¬ s.windowMs < now' - earliest := by simpa using hkept
    rw [not_lt, sub_le_iff_le_add, add_comm] at hage
    exact hage
  · intro r hr
    rw [List.append_assoc, ← hsplit] at hr
    rcases h.reached r hr with hle | ⟨hlong, earliest, hearliest, hreach⟩
    · exact .inl (hle.trans hlater)
    · cases hcase : dropped with
      | nil =>
        rw [hcase, List.nil_append] at hsplit
        rw [← hsplit]
        exact .inr ⟨hlong.le, earliest, hearliest, hreach⟩
      | cons first rest =>
        -- the earliest one has been dropped, so the call is later than what waited for it
        rw [hsplit, hcase] at hearliest
        obtain rfl := Option.some.inj hearliest
        exact .inl (hreach.trans (hdroppedOld _ (by rw [hcase]; exact List.mem_cons_self)).le)

omit [IsOrderedAddMonoid K] in
theorem Pruned.append (h : Pruned s now past) {release : K}
    (hlast : ∀ r ∈ past ++ s.timestamps, r ≤ release)
    (hreached : release ≤ now ∨
      s.limit ≤ s.timestamps.length ∧ ∃ earliest ∈ s.timestamps.head?, release ≤ earliest + s.windowMs) :
    Handed (s.insert release) now past where
  ascending := by
    change (past ++ (s.timestamps ++ [release])).Pairwise (· ≤ ·)
    rw [← List.append_assoc]
    exact List.pairwise_append.mpr ⟨h.ascending, List.pairwise_singleton _ _,
      fun r hr other hother => List.mem_singleton.mp hother ▸ hlast r hr⟩
  old := h.old
  reached := by
    intro r hr
    have hmem : r ≤ release := by
      change r ∈ past ++ (s.timestamps ++ [release]) at hr
      rw [← List.append_assoc] at hr
      rcases List.mem_append.mp hr with hbefore | hnew
      · exact hlast r hbefore
      · exact (List.mem_singleton.mp hnew).le
    rcases hreached with hle | ⟨hlong, earliest, hearliest, hreach⟩
    · exact .inl (hmem.trans hle)
    · refine .inr ⟨?_, earliest, ?_, hmem.trans hreach⟩
      · change s.limit < (s.timestamps ++ [release]).length
        rw [List.length_append, List.length_singleton]
        omega
      · change earliest ∈ (s.timestamps ++ [release]).head?
        rw [List.head?_append, hearliest]
        rfl

/-- One call keeps the spacing of the releases exactly when it is `AtLimit`. -/
theorem Handed.acquire (h : Handed s now past) (hlater : now ≤ now') :
    ∃ past', past ++ s.timestamps ++ [now' + (s.acquire now').1] =
        past' ++ (s.called now').timestamps ∧ Handed (s.called now') now' past' ∧
      (Spaced s.limit s.windowMs (past ++ s.timestamps ++ [now' + (s.acquire now').1]) ↔
        Spaced s.limit s.windowMs (past ++ s.timestamps) ∧ s.AtLimit now') := by
  obtain ⟨dropped, hsplit, hpruned⟩ := h.prune hlater
  obtain ⟨t, ht⟩ : ∃ t, t = s.prune now' := ⟨_, rfl⟩
  have hlimit : t.limit = s.limit := by rw [ht]; rfl
  have hwindow : t.windowMs = s.windowMs := by rw [ht]; rfl
  have hdone : past ++ s.timestamps = past ++ dropped ++ t.timestamps := by
    rw [hsplit, List.append_assoc, ht]
  rw [← ht] at hpruned
  rw [hdone, spaced_append_singleton s.positive]
  by_cases hfull : t.limit ≤ t.timestamps.length
  · obtain ⟨earliest, rest, hrecorded⟩ : ∃ earliest rest, t.timestamps = earliest :: rest :=
      List.exists_cons_of_length_pos (Nat.lt_of_lt_of_le t.positive hfull)
    have hreach := hpruned.recent earliest (by rw [hrecorded]; rfl)
    have hdelay : t.delay now' hfull = earliest + s.windowMs - now' := by
      unfold Limiter.delay
      simp only [hrecorded, List.head_cons, hwindow]
      rw [hwindow] at hreach
      exact max_eq_right (sub_nonneg.mpr hreach)
    have hanswer : s.acquire now' =
        (earliest + s.windowMs - now', t.insert (earliest + s.windowMs)) := by
      unfold Limiter.acquire
      subst ht
      dsimp only
      rw [dif_pos hfull, hdelay, add_sub_cancel]
    have hrelease : now' + (s.acquire now').1 = earliest + s.windowMs := by
      rw [hanswer]
      exact add_sub_cancel _ _
    have hcalled : s.called now' = t.insert (earliest + s.windowMs) := by
      rw [Limiter.called, hanswer]
    rw [hrelease, hcalled]
    rw [hwindow] at hreach
    have hlast : ∀ r ∈ past ++ dropped ++ t.timestamps, r ≤ earliest + s.windowMs := by
      intro r hr
      rcases hpruned.reached r hr with hle | ⟨-, first, hfirst, hle⟩
      · exact hle.trans hreach
      · rw [hrecorded] at hfirst
        obtain rfl := Option.some.inj hfirst
        rwa [hwindow] at hle
    refine ⟨past ++ dropped, List.append_assoc _ _ _, hpruned.append hlast
      (.inr ⟨hfull, earliest, by rw [hrecorded]; rfl, by rw [hwindow]⟩), ?_⟩
    -- the release `limit` places back is in the record, and the earliest is not later
    have hplace : (past ++ dropped ++ t.timestamps)[(past ++ dropped ++ t.timestamps).length - s.limit]? =
        t.timestamps[t.timestamps.length - s.limit]? := by
      rw [List.length_append, List.getElem?_append_right (by omega)]
      congr 1
      omega
    have hfirst : t.timestamps[0]? = some earliest := by
      rw [hrecorded]
      rfl
    have hascending : t.timestamps.Pairwise (· ≤ ·) := (List.pairwise_append.mp hpruned.ascending).2.1
    refine and_congr_right fun _ => ?_
    rw [hplace, Limiter.AtLimit, ← ht]
    constructor
    · intro hspaced _
      have hinside : t.timestamps.length - s.limit < t.timestamps.length := by
        have := s.positive
        omega
      have hle := hspaced _ (by rw [List.length_append]; omega) (List.getElem?_eq_getElem hinside)
      rw [List.getElem?_eq_getElem hinside, List.head?_eq_getElem?, hfirst]
      exact congrArg some (le_antisymm (add_le_add_iff_right _ |>.mp hle)
        (ascending_getElem? hascending (Nat.zero_le _) hfirst (List.getElem?_eq_getElem hinside)))
    · intro hat earlier _ hearlier
      have hsame := hat (hlimit ▸ hfull)
      rw [hearlier, List.head?_eq_getElem?, hfirst] at hsame
      exact (congrArg (· + s.windowMs) (Option.some.inj hsame)).le
  · have hanswer : s.acquire now' = (0, t.insert now') := by
      unfold Limiter.acquire
      subst ht
      exact dif_neg hfull
    have hrelease : now' + (s.acquire now').1 = now' := by
      rw [hanswer]
      exact add_zero _
    have hcalled : s.called now' = t.insert now' := by rw [Limiter.called, hanswer]
    rw [hrelease, hcalled]
    have hlast : ∀ r ∈ past ++ dropped ++ t.timestamps, r ≤ now' := by
      intro r hr
      rcases hpruned.reached r hr with hle | ⟨hlong, -⟩
      · exact hle
      · exact absurd hlong hfull
    refine ⟨past ++ dropped, List.append_assoc _ _ _,
      hpruned.append hlast (.inl le_rfl), ?_⟩
    have hearlier : ∀ earlier, s.limit ≤ (past ++ dropped ++ t.timestamps).length →
        (past ++ dropped ++ t.timestamps)[(past ++ dropped ++ t.timestamps).length - s.limit]? =
          some earlier → earlier + s.windowMs ≤ now' := by
      intro earlier hlong hearlier
      rw [List.length_append] at hlong hearlier
      rw [List.getElem?_append_left (by omega)] at hearlier
      have hold := hpruned.old earlier (List.mem_of_getElem? hearlier)
      rw [hwindow] at hold
      exact hold.le
    refine and_congr_right fun _ => ⟨fun _ hlong => ?_, fun _ => hearlier⟩
    rw [← ht] at hlong
    exact absurd (hlimit ▸ hlong) hfull

/-- The releases of a run, after those already handed out. -/
theorem Handed.releases {calls : List K} (h : Handed s now past)
    (hcalls : (now :: calls).Pairwise (· ≤ ·)) :
    (past ++ s.timestamps ++ s.releases calls).Pairwise (· ≤ ·) ∧
      (Spaced s.limit s.windowMs (past ++ s.timestamps ++ s.releases calls) ↔
        Spaced s.limit s.windowMs (past ++ s.timestamps) ∧
          Along Limiter.called Limiter.AtLimit s calls) := by
  induction calls generalizing s now past with
  | nil =>
    rw [Limiter.releases, List.append_nil]
    exact ⟨h.ascending, (and_iff_left trivial).symm⟩
  | cons next calls ih =>
    have hlater : now ≤ next := List.rel_of_pairwise_cons hcalls List.mem_cons_self
    obtain ⟨past', hdone, hhanded, hspaced⟩ := h.acquire hlater
    obtain ⟨hsorted, hrest⟩ := ih hhanded hcalls.of_cons
    have hlimit : (s.called next).limit = s.limit ∧ (s.called next).windowMs = s.windowMs := by
      unfold Limiter.called Limiter.acquire
      dsimp only
      split_ifs <;> exact ⟨rfl, rfl⟩
    rw [hlimit.1, hlimit.2, ← hdone, hspaced, and_assoc] at hrest
    rw [Limiter.releases, List.append_cons]
    rw [← hdone] at hsorted
    exact ⟨hsorted, hrest⟩

end Space2.RateLimiter
