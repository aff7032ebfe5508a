import Space2.Base.LuaPattern

/-!
# The edit_file tool

The text to replace is escaped into a pattern, and the new text is given to `gsub`
as it is. The pattern matches the text alone, but a percent sign in the new text is
read as a reference to what was matched.
-/
namespace Space2.LlmTools
open Space2.Base.LuaPattern

/-- What reading a path gives. -/
abbrev Files := String → Except String Bytes

/-- The pattern `([%%%^%$%(%)%.%[%]%*%+%-%?])`. -/
def magicPattern : Bytes :=
  [40, 91, 37, 37, 37, 94, 37, 36, 37, 40, 37, 41, 37, 46, 37, 91, 37, 93, 37, 42, 37, 43, 37, 45, 37, 63,
    93, 41]

/-- The replacement `%%%1`. -/
def magicReplacement : Bytes := [37, 37, 37, 49]

def joinPath (base part : String) : String :=
  if base = "" ∨ base.endsWith "/" then base ++ part else base ++ "/" ++ part

def resolvePath (path cwd : String) : String :=
  if path.startsWith "/" then path else joinPath cwd path

/-- What the tool leaves in the files, and the number of replacements unless it raises. -/
def editFile (files : Files) (cwd path : String) (oldText newText : Bytes) : Files × Except String Nat :=
  let target := resolvePath path cwd
  match files target with
  | .error message => (files, throw s!"edit_file failed to read {path}: {message}")
  | .ok content =>
    match gsub oldText magicPattern magicReplacement with
    | .error message => (files, throw message)
    | .ok (escaped, _) =>
      match gsub content escaped newText with
      | .error message => (files, throw message)
      | .ok (updated, count) =>
        if count = 0 then (files, throw s!"edit_file did not find old-text in {path}")
        else (Function.update files target (.ok updated), pure count)

/-! ## Escaping -/

def magicBytes : Bytes := [37, 94, 36, 40, 41, 46, 91, 93, 42, 43, 45, 63]

def escape (text : Bytes) : Bytes := text.flatMap fun c => if c ∈ magicBytes then [37, c] else [c]

def magicFound : Bytes → Option (Bytes × List Capture)
  | [] => none
  | c :: rest =>
    if c ∈ magicBytes then some (rest, [⟨c :: rest, some ((c :: rest).length - rest.length)⟩]) else none


theorem matchClass_magic {cl : UInt8} (hmagic : cl ∈ magicBytes) (c : UInt8) :
    matchClass c cl = decide (cl = c) := by
  have hnone : (magicBytes.all fun cl => (classOf (toLower cl)).isNone) = true := rfl
  rw [matchClass, Option.isNone_iff_eq_none.mp (List.all_eq_true.mp hnone cl hmagic)]

theorem matchMagic (c : UInt8) :
    matchBracketClass c [37, 37, 37, 94, 37, 36, 37, 40, 37, 41, 37, 46, 37, 91, 37, 93, 37, 42, 37, 43, 37,
      45, 37, 63] = decide (c ∈ magicBytes) := by
  have hitems : ∀ next last : UInt8, ∀ rest : Bytes, next ∈ magicBytes →
      matchItems c (37 :: next :: last :: rest) = (decide (next = c) || matchItems c (last :: rest)) := by
    intro next last rest hmagic
    rw [matchItems, if_pos rfl, matchClass_magic hmagic]
  have hlast : matchItems c [37, 63] = decide (63 = c) := by
    rw [matchItems, if_pos rfl, matchClass_magic (by decide)]
  rw [matchBracketClass, if_neg (by decide), hitems _ _ _ (by decide), hitems _ _ _ (by decide),
    hitems _ _ _ (by decide), hitems _ _ _ (by decide), hitems _ _ _ (by decide),
    hitems _ _ _ (by decide), hitems _ _ _ (by decide), hitems _ _ _ (by decide),
    hitems _ _ _ (by decide), hitems _ _ _ (by decide), hitems _ _ _ (by decide), hlast]
  simp only [magicBytes, List.mem_cons, List.not_mem_nil, or_false, Bool.decide_or, eq_comm]

theorem doMatch_magic (s : Bytes) :
    doMatch (magicPattern.length + 1) s magicPattern [] = .ok (magicFound s) := by
  cases s with
  | nil => rfl
  | cons c rest =>
    have hstep : doMatch (magicPattern.length + 1) (c :: rest) magicPattern [] =
        if matchBracketClass c [37, 37, 37, 94, 37, 36, 37, 40, 37, 41, 37, 46, 37, 91, 37, 93, 37, 42, 37,
          43, 37, 45, 37, 63] = true then
          .ok (some (rest, [⟨c :: rest, some ((c :: rest).length - rest.length)⟩])) else .ok none := rfl
    rw [hstep, matchMagic, magicFound]
    by_cases hmagic : c ∈ magicBytes
    · rw [if_pos (decide_eq_true hmagic), if_pos hmagic]
    · rw [if_neg (by simpa using hmagic), if_neg hmagic]

theorem addS_magic (c : UInt8) (rest : Bytes) (whole : Bytes) :
    addS [⟨c :: rest, some ((c :: rest).length - rest.length)⟩] whole magicReplacement = .ok [37, c] := by
  have hone : (c :: rest).length - rest.length = 1 := by
    rw [List.length_cons]
    omega
  rw [hone]
  rfl

theorem escape_cons (c : UInt8) (text : Bytes) :
    escape (c :: text) = (if c ∈ magicBytes then [37, c] else [c]) ++ escape text := rfl

theorem replaceEach_magic (fuel : Nat) (text : Bytes) (hfuel : text.length < fuel) :
    ∃ n, replaceEach magicFound magicReplacement fuel text = .ok (escape text, n) := by
  induction fuel generalizing text with
  | zero => omega
  | succ fuel ih =>
    cases text with
    | nil => exact ⟨0, rfl⟩
    | cons c text =>
      rw [List.length_cons] at hfuel
      have hrest : text.length < fuel := by omega
      obtain ⟨n, hn⟩ := ih text hrest
      rw [escape_cons]
      by_cases hmagic : c ∈ magicBytes
      · refine ⟨n + 1, ?_⟩
        rw [if_pos hmagic, replaceEach, magicFound, if_pos hmagic]
        simp only [addS_magic, hn]
        rfl
      · refine ⟨n, ?_⟩
        rw [if_neg hmagic, replaceEach, magicFound, if_neg hmagic]
        simp only [hn]
        rfl

theorem gsub_magic (text : Bytes) :
    ∃ n, gsub text magicPattern magicReplacement = .ok (escape text, n) := by
  have hshorter : ∀ s e captures, magicFound s = some (e, captures) → e.length < s.length := by
    intro s e captures hfound
    cases s with
    | nil => cases hfound
    | cons c rest =>
      rw [magicFound] at hfound
      split at hfound
      · cases hfound
        simp
      · cases hfound
  have hcaret : ¬ magicPattern.head? = some 94 := by decide
  rw [gsub, if_neg hcaret, gsubFrom_eq doMatch_magic hshorter _ _ _ (by simp)]
  exact replaceEach_magic _ text (by omega)

theorem escape_head (text : Bytes) (c : UInt8) (hc : c ∈ magicBytes) (hnot : c ≠ 37) :
    (escape text).head? ≠ some c := by
  cases text with
  | nil => simp [escape]
  | cons d text =>
    rw [escape_cons]
    by_cases hmagic : d ∈ magicBytes
    · rw [if_pos hmagic]
      simpa using hnot.symm
    · rw [if_neg hmagic]
      intro heq
      have heq' : d = c := by simpa using heq
      exact hmagic (heq' ▸ hc)

theorem escape_no_repetition (text : Bytes) :
    ¬ ((escape text).head? = some 42 ∨ (escape text).head? = some 43 ∨ (escape text).head? = some 45 ∨
      (escape text).head? = some 63) := by
  rintro (h | h | h | h)
  all_goals exact escape_head text _ (by decide) (by decide) h

theorem doMatch_escape_cons (fuel : Nat) (s : Bytes) (c : UInt8) (old : Bytes) (captures : List Capture) :
    doMatch (fuel + 1) s (escape (c :: old)) captures =
      if s.head? = some c then doMatch fuel s.tail (escape old) captures else .ok none := by
  rw [escape_cons]
  by_cases hmagic : c ∈ magicBytes
  · have hplain : (magicBytes.all fun c => !(c = 98 || c = 102 || isDigit c)) = true := rfl
    have hletter := List.all_eq_true.mp hplain c hmagic
    have hclass : ¬ ((37 : UInt8) = 37 ∧ ((c :: escape old).head? = some 98 ∨
        (c :: escape old).head? = some 102 ∨ ((c :: escape old).head?.any isDigit) = true)) := by
      simp at hletter ⊢
      tauto
    have hend : classEnd (37 :: c :: escape old) = .ok (escape old) := rfl
    have hsingle : singleMatch s (37 :: c :: escape old) (escape old) = decide (s.head? = some c) := by
      cases s with
      | nil => rfl
      | cons d s =>
        have hmatch : singleMatch (d :: s) (37 :: c :: escape old) (escape old) = matchClass d c := rfl
        rw [hmatch, matchClass_magic hmagic]
        simp [eq_comm]
    rw [if_pos hmagic, List.cons_append, List.cons_append, List.nil_append, doMatch, if_neg (by decide),
      if_neg (by decide), if_neg (by simp), if_neg hclass, hend]
    simp only [bind, Except.bind, if_neg (escape_no_repetition old), hsingle, decide_eq_true_eq]
    rfl
  · have hother : ∀ d ∈ magicBytes, c ≠ d := fun d hd heq => hmagic (heq ▸ hd)
    have h91 : c ≠ 91 := hother 91 (by decide)
    have h37 : c ≠ 37 := hother 37 (by decide)
    have hend : classEnd (c :: escape old) = .ok (escape old) := by
      rw [classEnd, if_neg h37, if_neg h91]
      rfl
    have hsingle : singleMatch s (c :: escape old) (escape old) = decide (s.head? = some c) := by
      cases s with
      | nil => rfl
      | cons d s =>
        rw [singleMatch, if_neg (hother 46 (by decide)), if_neg h37, if_neg h91]
        simp [eq_comm]
    rw [if_neg hmagic, List.singleton_append, doMatch, if_neg (hother 40 (by decide)),
      if_neg (hother 41 (by decide)), if_neg (fun h => hother 36 (by decide) h.1),
      if_neg (fun h => h37 h.1), hend]
    simp only [bind, Except.bind, if_neg (escape_no_repetition old), hsingle, decide_eq_true_eq]
    rfl

def found (old s : Bytes) : Option (Bytes × List Capture) :=
  if old <+: s then some (s.drop old.length, []) else none

theorem doMatch_escape (old : Bytes) (fuel : Nat) (hfuel : old.length ≤ fuel) (s : Bytes) :
    doMatch fuel s (escape old) [] = .ok (found old s) := by
  induction old generalizing fuel s with
  | nil =>
    have hend : found [] s = some (s, []) := by simp [found]
    rw [hend]
    cases fuel
    · rfl
    · rfl
  | cons c old ih =>
    rw [List.length_cons] at hfuel
    obtain ⟨fuel, rfl⟩ : ∃ n, fuel = n + 1 := ⟨fuel - 1, by omega⟩
    rw [doMatch_escape_cons]
    cases s with
    | nil => simp [found]
    | cons d s =>
      by_cases hd : d = c
      · subst hd
        rw [if_pos List.head?_cons, List.tail_cons, ih fuel (by omega)]
        simp [found]
      · have hne : ¬ (c :: old) <+: (d :: s) := by
          rw [List.cons_prefix_cons]
          exact fun h => hd h.1.symm
        rw [if_neg (by simpa using hd), found, if_neg hne]


/-! ## Literal replacement -/

/-- `out` is `content` with the occurrences of `old`, from the left and without overlap,
replaced by `new`. -/
inductive Replaced (old new : Bytes) : Bytes → Bytes → Nat → Prop
  | done : Replaced old new [] [] 0
  | hit {rest out : Bytes} {n : Nat} :
      Replaced old new rest out n → Replaced old new (old ++ rest) (new ++ out) (n + 1)
  | skip {c : UInt8} {rest out : Bytes} {n : Nat} :
      ¬ old <+: c :: rest → Replaced old new rest out n → Replaced old new (c :: rest) (c :: out) n

variable {old new new' content out out' : Bytes} {n n' : Nat}

theorem Replaced.length_eq (hreplaced : Replaced old new content out n) :
    out.length + n * old.length = content.length + n * new.length := by
  induction hreplaced with
  | done => simp
  | hit _ ih =>
    rw [List.length_append, List.length_append, Nat.succ_mul, Nat.succ_mul]
    omega
  | skip _ _ ih =>
    rw [List.length_cons, List.length_cons]
    omega

theorem Replaced.occurs_iff (hreplaced : Replaced old new content out n) (hold : old ≠ []) :
    old <:+: content ↔ n ≠ 0 := by
  induction hreplaced with
  | done => simpa using hold
  | hit _ _ => simpa using (List.prefix_append _ _).isInfix
  | skip hnot _ ih =>
    rw [List.infix_cons_iff, ih]
    exact or_iff_right hnot

/-- What was put in can be read off the result. -/
theorem Replaced.new_eq (hreplaced : Replaced old new content out n)
    (hreplaced' : Replaced old new' content out n) (hold : old ≠ []) (hsome : n ≠ 0) : new = new' := by
  have hlength : new.length = new'.length := by
    have hsame : n * new.length = n * new'.length := by
      have h := hreplaced.length_eq
      have h' := hreplaced'.length_eq
      omega
    exact Nat.eq_of_mul_eq_mul_left (Nat.pos_of_ne_zero hsome) hsame
  generalize hc : content = content' at hreplaced'
  generalize ho : out = out' at hreplaced'
  generalize hn : n = n' at hreplaced'
  induction hreplaced generalizing content' out' n' with
  | done => exact absurd rfl hsome
  | @hit rest out n hrest ih =>
    cases hreplaced' with
    | done => exact absurd (List.append_eq_nil_iff.mp hc).1 hold
    | hit _ => exact (List.append_inj ho hlength).1
    | skip hnot _ => exact absurd ⟨_, hc⟩ hnot
  | @skip c rest out n hnot hrest ih =>
    cases hreplaced' with
    | done => cases hc
    | hit _ => exact absurd ⟨_, hc.symm⟩ hnot
    | skip _ hrest' =>
      cases hc
      cases ho
      exact ih hsome rest rfl out rfl n' hn hrest'

theorem replaceEach_found (hold : old ≠ []) (hadded : addS [] old new' = .ok new) (fuel : Nat)
    (hfuel : content.length < fuel) :
    ∃ out n, Replaced old new content out n ∧ replaceEach (found old) new' fuel content = .ok (out, n) := by
  induction fuel generalizing content with
  | zero => omega
  | succ fuel ih =>
    by_cases hstart : old <+: content
    · obtain ⟨rest, rfl⟩ := hstart
      have hpositive := List.length_pos_iff.mpr hold
      rw [List.length_append] at hfuel
      have hshorter : rest.length < fuel := by omega
      obtain ⟨out, n, hrest, heq⟩ := ih hshorter
      have hdrop : (old ++ rest).drop old.length = rest := List.drop_left
      have hwhole : (old ++ rest).take ((old ++ rest).length - rest.length) = old := by
        rw [List.length_append, Nat.add_sub_cancel]
        exact List.take_left
      refine ⟨new ++ out, n + 1, .hit hrest, ?_⟩
      unfold replaceEach
      rw [found, if_pos (List.prefix_append old rest), hdrop]
      simp only [hwhole, hadded, heq]
      rfl
    · cases content with
      | nil =>
        refine ⟨[], 0, .done, ?_⟩
        unfold replaceEach
        rw [found, if_neg hstart]
        rfl
      | cons c rest =>
        rw [List.length_cons] at hfuel
        have hshorter : rest.length < fuel := by omega
        obtain ⟨out, n, hrest, heq⟩ := ih hshorter
        refine ⟨c :: out, n, .skip hstart hrest, ?_⟩
        rw [replaceEach, found, if_neg hstart]
        simp only [heq]
        rfl

theorem replaceEach_absent (habsent : ¬ old <:+: content) (fuel : Nat) (hfuel : content.length < fuel) :
    replaceEach (found old) new fuel content = .ok (content, 0) := by
  induction fuel generalizing content with
  | zero => omega
  | succ fuel ih =>
    have hstart : ¬ old <+: content := fun h => habsent h.isInfix
    unfold replaceEach
    rw [found, if_neg hstart]
    cases content with
    | nil => rfl
    | cons c rest =>
      rw [List.length_cons] at hfuel
      have hrest : ¬ old <:+: rest := fun h => habsent (List.infix_cons_iff.mpr (.inr h))
      simp only [ih hrest (by omega)]
      rfl

theorem replaceEach_raises {message : String} (hraises : addS [] old new = .error message)
    (hoccurs : old <:+: content) (fuel : Nat) (hfuel : content.length < fuel) :
    replaceEach (found old) new fuel content = .error message := by
  induction fuel generalizing content with
  | zero => omega
  | succ fuel ih =>
    unfold replaceEach
    by_cases hstart : old <+: content
    · have hwhole : content.take (content.length - (content.drop old.length).length) = old := by
        obtain ⟨rest, rfl⟩ := hstart
        rw [List.drop_left, List.length_append, Nat.add_sub_cancel]
        exact List.take_left
      rw [found, if_pos hstart]
      simp only [hwhole, hraises]
      rfl
    · rw [found, if_neg hstart]
      cases content with
      | nil => exact absurd (List.infix_nil.mp hoccurs ▸ List.nil_prefix) hstart
      | cons c rest =>
        rw [List.length_cons] at hfuel
        have hrest : old <:+: rest := (List.infix_cons_iff.mp hoccurs).resolve_left hstart
        simp only [ih hrest (by omega)]
        rfl

theorem escape_length (old : Bytes) : old.length ≤ (escape old).length := by
  induction old with
  | nil => exact Nat.zero_le _
  | cons c old ih =>
    rw [escape_cons, List.length_append, List.length_cons]
    by_cases hmagic : c ∈ magicBytes
    · rw [if_pos hmagic]
      simp
      omega
    · rw [if_neg hmagic]
      simp
      omega

theorem gsub_escaped (hold : old ≠ []) (content new : Bytes) :
    gsub content (escape old) new = replaceEach (found old) new (2 * content.length + 2) content := by
  have hshorter : ∀ s e captures, found old s = some (e, captures) → e.length < s.length := by
    intro s e captures hfound
    by_cases hstart : old <+: s
    · rw [found, if_pos hstart] at hfound
      cases hfound
      have hpositive := List.length_pos_iff.mpr hold
      have hlength := hstart.length_le
      rw [List.length_drop]
      omega
    · rw [found, if_neg hstart] at hfound
      cases hfound
  have hfound := doMatch_escape old ((escape old).length + 1) (by have := escape_length old; omega)
  rw [gsub, if_neg (escape_head old 94 (by decide) (by decide)), gsubFrom_eq hfound hshorter _ _ _ (by simp)]

theorem editFile_eq {files : Files} {path cwd : String} (hold : old ≠ [])
    (hcontent : files (resolvePath path cwd) = .ok content) :
    editFile files cwd path old new =
      match replaceEach (found old) new (2 * content.length + 2) content with
      | .error message => (files, throw message)
      | .ok (updated, count) =>
        if count = 0 then (files, throw s!"edit_file did not find old-text in {path}")
        else (Function.update files (resolvePath path cwd) (.ok updated), pure count) := by
  obtain ⟨escapes, hescape⟩ := gsub_magic old
  rw [editFile, hcontent]
  dsimp only
  rw [hescape]
  dsimp only
  rw [gsub_escaped hold]

/-- What the tool is for: the occurrences are replaced and counted, and without one nothing
is written. -/
def ReplacesLiterally (files : Files) (cwd path : String) (old new content : Bytes) : Prop :=
  ∃ out n, Replaced old new content out n ∧
    (old <:+: content → editFile files cwd path old new =
      (Function.update files (resolvePath path cwd) (.ok out), .ok n)) ∧
    (¬ old <:+: content → ∃ message, editFile files cwd path old new = (files, .error message))

theorem Replaced.absent (habsent : ¬ old <:+: content) : Replaced old new content content 0 := by
  induction content with
  | nil => exact .done
  | cons c rest ih =>
    rw [List.infix_cons_iff, not_or] at habsent
    exact .skip habsent.1 (ih habsent.2)

theorem replacesLiterally_of {files : Files} {cwd path : String} (hold : old ≠ [])
    (hcontent : files (resolvePath path cwd) = .ok content)
    (hadded : old <:+: content → addS [] old new = .ok new) :
    ReplacesLiterally files cwd path old new content := by
  have hfuel : content.length < 2 * content.length + 2 := by omega
  rw [ReplacesLiterally, editFile_eq hold hcontent]
  by_cases hoccurs : old <:+: content
  · obtain ⟨out, n, hreplaced, heq⟩ := replaceEach_found hold (hadded hoccurs) _ hfuel
    have hsome := (hreplaced.occurs_iff hold).mp hoccurs
    refine ⟨out, n, hreplaced, fun _ => ?_, fun habsent => absurd hoccurs habsent⟩
    rw [heq]
    dsimp only
    rw [if_neg hsome]
    rfl
  · have habsent : replaceEach (found old) new (2 * content.length + 2) content = .ok (content, 0) :=
      replaceEach_absent hoccurs _ hfuel
    refine ⟨content, 0, .absent hoccurs, fun h => absurd h hoccurs, fun _ => ?_⟩
    rw [habsent]
    exact ⟨_, rfl⟩

theorem ReplacesLiterally.added {files : Files} {cwd path : String} (hold : old ≠ [])
    (hcontent : files (resolvePath path cwd) = .ok content)
    (hliteral : ReplacesLiterally files cwd path old new content) (hoccurs : old <:+: content) :
    addS [] old new = .ok new := by
  have hfuel : content.length < 2 * content.length + 2 := by omega
  rw [ReplacesLiterally, editFile_eq hold hcontent] at hliteral
  obtain ⟨out, n, hreplaced, hresult, -⟩ := hliteral
  have hresult := hresult hoccurs
  have hsome := (hreplaced.occurs_iff hold).mp hoccurs
  cases hadded : addS [] old new with
  | error message =>
    rw [replaceEach_raises hadded hoccurs _ hfuel] at hresult
    cases congrArg Prod.snd hresult
  | ok added =>
    obtain ⟨out', n', hreplaced', heq⟩ := replaceEach_found hold hadded _ hfuel
    have hsome' := (hreplaced'.occurs_iff hold).mp hoccurs
    rw [heq] at hresult
    dsimp only at hresult
    rw [if_neg hsome'] at hresult
    have hn : n' = n := Except.ok.inj (congrArg Prod.snd hresult)
    have hout : out' = out := by
      have hfile := congrFun (congrArg Prod.fst hresult) (resolvePath path cwd)
      simpa using hfile
    subst hn hout
    rw [hreplaced.new_eq hreplaced' hold hsome]

theorem replacesLiterally_iff (files : Files) (cwd path : String) (old new content : Bytes) (hold : old ≠ [])
    (hcontent : files (resolvePath path cwd) = .ok content) :
    ReplacesLiterally files cwd path old new content ↔
      (old <:+: content → addS [] old new = .ok new) :=
  ⟨fun hliteral hoccurs => hliteral.added hold hcontent hoccurs,
    fun hadded => replacesLiterally_of hold hcontent hadded⟩

/-- Replacing `a` by `b` in `ab`. -/
theorem replacesLiterally_plain :
    ReplacesLiterally (fun _ => .ok [97, 98]) "/tmp" "a" [97] [98] [97, 98] :=
  (replacesLiterally_iff (fun _ => .ok [97, 98]) "/tmp" "a" [97] [98] [97, 98] (by simp) rfl).mpr fun _ => rfl

/-- Of two percent signs one is written. -/
theorem not_literal_percent :
    ¬ ∀ (files : Files) (cwd path : String) (old new content : Bytes), old ≠ [] →
      files (resolvePath path cwd) = .ok content → ReplacesLiterally files cwd path old new content := by
  intro hall
  have hold : ([97] : Bytes) ≠ [] := by simp
  have hliteral := hall (fun _ => .ok [97]) "/tmp" "a" [97] [37, 37] [97] hold rfl
  have hadded := hliteral.added hold rfl (List.infix_refl _)
  have hone : addS [] [97] [37, 37] = .ok [37] := rfl
  rw [hone] at hadded
  cases hadded

end Space2.LlmTools
