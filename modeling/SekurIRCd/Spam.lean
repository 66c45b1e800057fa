/-
# Spam filters and their file

The rules that `SPAMFILTER` adds and deletes are also kept in a file, one rule a line, which is read
again on a rehash.  `format_rule` writes a line and `parse_line` reads it, word by word with a
`sscanf` that takes at most fifteen characters of each; a deleted rule's line is looked for by its
targets, action and pattern.

Both of these lose something.  A duration of a hundred million million seconds or more does not fit
the fifteen characters it is read with (`long_duration_lost`), and the line that is looked for may
be that of another rule (`other_rule_deleted`).  In a run in which neither happens, and in which the
file has no more rules than are kept, reloading the file changes nothing (`rules_survive_reload`).
-/
import SekurIRCd.Lib.CString
import SekurIRCd.Lib.Chunks
import SekurIRCd.Lib.Runs
import Mathlib.Data.Finset.Basic
import Mathlib.Data.Finset.Lattice.Lemmas
import Mathlib.Data.List.DropRight

namespace SekurIRCd

open CLib

/-! ## 1. A rule and its line

`SPAMFILTER ADD` builds a line from what was typed and has it parsed, so the parser of the file is
also that of the command. -/

/-- `SPAM_T_*`. -/
inductive SpamTarget
  | privmsgUser | privmsgChan | noticeUser | noticeChan | away | quit | part | topic
deriving DecidableEq

/-- The letters, in the order of `format_rule`. -/
def spamTargetLetters : List (Char × SpamTarget) :=
  [('p', .privmsgUser), ('c', .privmsgChan), ('n', .noticeUser), ('N', .noticeChan), ('a', .away),
    ('q', .quit), ('P', .part), ('t', .topic)]

/-- `spam_action_t`. -/
inductive SpamAction
  | block | warn | kill | zline | hide | shun
deriving DecidableEq

/-- `action_name`. -/
def SpamAction.name : SpamAction → Text
  | .block => "block".toList
  | .warn => "warn".toList
  | .kill => "kill".toList
  | .zline => "zline".toList
  | .hide => "hide".toList
  | .shun => "shun".toList

/-- `spam_filter_t` without the compiled pattern. The targets are a set of bits; a duration of 0 is
written as `-`. -/
structure SpamFilter where
  targets : Finset SpamTarget
  action : SpamAction
  duration : Nat
  reason : Text
  pattern : Text
deriving DecidableEq

/-- `spam_parse_targets`; `none` is its 0. -/
def spamParseTargets (s : Text) : Option (Finset SpamTarget) :=
  if s = [] then none
  else s.foldl (fun m c => m.bind fun m => (spamTargetLetters.lookup c).map fun t => insert t m)
    (some ∅)

/-- `parse_action`; `none` is its `-1`. -/
def parseAction (s : Text) : Option SpamAction :=
  [SpamAction.block, .warn, .kill, .zline, .hide, .shun].find? fun a => caseEq s a.name

/-- The largest `long`. -/
def durationMax : Nat := 2 ^ 63 - 1

/-- The digits of a duration, held below what the next digit could overflow. -/
def durationDigits (n : Nat) (ds : Text) : Nat :=
  ds.foldl (fun n d => min n ((durationMax - 9) / 10) * 10 + (d.toNat - '0'.toNat)) n

/-- The seconds of a unit. -/
def durationUnit : Text → Option Nat
  | [] => some 1
  | [c] =>
    if c.toLower = 's' then some 1 else if c.toLower = 'm' then some 60
    else if c.toLower = 'h' then some 3600 else if c.toLower = 'd' then some 86400
    else if c.toLower = 'w' then some 604800 else none
  | _ => none

/-- `irc_parse_duration`; `none` is its `-1`. Digits and one unit; a number that would not fit a
`long` is held at the largest. -/
def ircParseDuration (token : Text) : Option Nat :=
  let ds := token.takeWhile Char.isDigit
  if ds = [] then none
  else (durationUnit (token.dropWhile Char.isDigit)).map fun mult =>
    let n := durationDigits 0 ds
    if durationMax / mult < n then durationMax else n * mult

/-- `%15s`: a word of at most fifteen characters, and what is behind it. -/
def scanWord (s : Text) : Option (Text × Text) :=
  let s := s.dropWhile isSpace
  let w := (s.takeWhile fun c => !isSpace c).take 15
  if w = [] then none else some (w, s.drop w.length)

/-- `sscanf(line, "%15s %15s %15s %n", ..)`: three words, and what is behind them. -/
def scanRule (line : Text) : Option (Text × Text × Text × Text) :=
  (scanWord line).bind fun tgt => (scanWord tgt.2).bind fun act => (scanWord act.2).map fun dur =>
    (tgt.1, act.1, dur.1, dur.2.dropWhile isSpace)

/-- A text without the white space around it. -/
def trim (s : Text) : Text := (s.dropWhile isSpace).rdropWhile isSpace

/-- The quoted reason and the pattern. -/
def parseReason : Text → Except Text (Text × Text)
  | '"' :: p =>
    match strchr '"' p with
    | none => .error "unterminated reason quote".toList
    | some (reason, q) =>
      if trim q = [] then .error "missing regex".toList
      else if 256 ≤ (trim q).length then .error "regex too long (max 255)".toList
      else .ok (clip 128 reason, trim q)
  | _ => .error "reason must be in double quotes".toList

/-- The duration field. -/
def parseRuleDuration (dur : Text) : Option Nat :=
  if dur = ['-'] then some 0 else ircParseDuration dur

/-- What `parse_line` makes of the fields. -/
def parseFields (tgt act dur p : Text) : Except Text SpamFilter :=
  match spamParseTargets tgt with
  | none => .error (clip 160 ("bad targets '".toList ++ tgt ++
      "' (letters from p c n N a q P t)".toList))
  | some targets =>
    match parseAction act with
    | none => .error (clip 160 ("bad action '".toList ++ act ++
        "' (block|warn|kill|zline|hide|shun)".toList))
    | some action =>
      match parseRuleDuration dur with
      | none => .error (clip 160 ("bad duration '".toList ++ dur ++ "'".toList))
      | some duration =>
        (parseReason p).map fun r => ⟨targets, action, duration, r.1, r.2⟩

/-- `parse_line`; a blank line or a comment has no rule. -/
def parseLine (line : Text) : Except Text (Option SpamFilter) :=
  match line.dropWhile isSpace with
  | [] => .ok none
  | c :: rest =>
    if c = '#' then .ok none
    else match scanRule (c :: rest) with
      | none => .error "expected: <targets> <action> <duration|-> \"<reason>\" <regex>".toList
      | some (tgt, act, dur, p) => (parseFields tgt act dur p).map some

/-- `format_rule` without its buffer. -/
def ruleText (f : SpamFilter) : Text :=
  (spamTargetLetters.filter fun t => t.2 ∈ f.targets).map Prod.fst ++ ' ' :: f.action.name ++ ' ' ::
    (if f.duration = 0 then ['-'] else decimal f.duration ++ ['s']) ++ " \"".toList ++ f.reason ++
    "\" ".toList ++ f.pattern

/-- `format_rule`. -/
def formatRule (f : SpamFilter) (outsz : Nat) : Text := clip outsz (ruleText f)

/-- The test for backreferences. -/
def hasBackref : Text → Bool
  | '\\' :: d :: r => decide ('1' ≤ d ∧ d ≤ '9') || hasBackref r
  | _ :: r => hasBackref r
  | [] => false

/-! ## 2. The file

The file is a stream of lines, read with a buffer. Whether a pattern compiles is up to `regcomp`,
which is a parameter. -/

section File

-- `regcomp`, and whether what it makes matches the empty text
variable (regcomp : Text → Except Text Bool)

/-- `compile_rule`. -/
def compileRule (f : SpamFilter) : Except Text Unit :=
  if hasBackref f.pattern then .error "backreferences are not allowed".toList
  else match regcomp f.pattern with
    | .error e => .error (clip 160 ("invalid regex: ".toList ++ clip 100 e))
    | .ok true => .error "regex matches the empty string (would match every message)".toList
    | .ok false => .ok ()

/-- The rule of a line, if it has one that compiles. -/
def lineRule (line : Text) : Option SpamFilter :=
  match parseLine line with
  | .ok (some f) =>
    match compileRule regcomp f with
    | .ok _ => some f
    | .error _ => none
  | _ => none

/-- `fgets(line, 700, ..)` to the end of the file. -/
def fileLines (file : Text) : List Text := Chunks.read '\n' 699 file

/-- All the rules in a file. -/
def fileRules (file : Text) : List SpamFilter := (fileLines file).filterMap (lineRule regcomp)

/-- `SPAM_MAX_FILTERS`. -/
def spamMaxFilters : Nat := 256

/-- `spam_reload`. -/
def spamReload (file : Text) : List SpamFilter := (fileRules regcomp file).take spamMaxFilters

/-- What `rewrite_without` compares. -/
def sameRule (victim f : SpamFilter) : Bool :=
  decide (f.targets = victim.targets ∧ f.action = victim.action ∧ f.pattern = victim.pattern)

/-- A line that `rewrite_without` drops. -/
def isLineOf (victim : SpamFilter) (line : Text) : Bool :=
  match parseLine line with
  | .ok (some f) => sameRule victim f
  | _ => false

/-- `rewrite_without`. The first line that parses to a rule like the victim is left out, and all
others are copied, comments and lines that do not parse included. -/
def rewriteWithout (file : Text) (victim : SpamFilter) : Text :=
  ((fileLines file).eraseP (isLineOf victim)).flatten

/-- `append_rule`. -/
def appendRule (file : Text) (f : SpamFilter) : Text :=
  Chunks.endLine '\n' file ++ (formatRule f 700 ++ ['\n'])

/-- The rules in memory and the file, which is text and so has no NUL. -/
structure SpamState where
  filters : List SpamFilter
  file : Text

/-- `SPAMFILTER ADD` with its parameters behind the first, and `SPAMFILTER DEL`. -/
inductive SpamCommand
  | add (params : List Text)
  | del (number : Option Text)

/-- The reason as it is typed: underscores are spaces, and a quote would end it. -/
def typedReason (s : Text) : Text :=
  (clip 128 s).map fun c => if c = '_' then ' ' else if c = '"' then '\'' else c

/-- The words of a pattern, in a buffer of 256 bytes. -/
def typedPattern (words : List Text) : Text := clip 256 (joinSep ' ' words)

/-- The line that `ADD` parses. -/
def typedRule (tgt act dur reason : Text) (pattern : List Text) : Text :=
  clip 600 (tgt ++ ' ' :: act ++ ' ' :: dur ++ " \"".toList ++ typedReason reason ++ "\" ".toList ++
    typedPattern pattern)

/-- What is told to the operator who deletes or adds. -/
abbrev SpamReply := Text

/-- `cmd_spamfilter`, where filters are enabled and have a file. `enabled` is `[spam] enabled`.
What cannot be parsed or compiled goes neither into the list nor into the file. -/
def cmdSpamfilter (enabled : Bool) (s : SpamState) : SpamCommand → SpamState × SpamReply
  | .del number =>
    let n := number.elim 0 atoi
    match if n < 1 then none else s.filters[(n - 1).toNat]? with
    | none => (s, "No such filter number (see SPAMFILTER LIST)".toList)
    | some dead =>
      (⟨s.filters.eraseIdx (n - 1).toNat, rewriteWithout s.file dead⟩, "Spam filter removed".toList)
  | .add (tgt :: act :: dur :: reason :: word :: words) =>
    if spamMaxFilters ≤ s.filters.length then (s, "Too many spam filters".toList)
    else match parseLine (typedRule tgt act dur reason (word :: words)) with
      | .error err => (s, clip 220 ("Rejected: ".toList ++ err))
      -- a comment: nothing has been written to `err`
      | .ok none => (s, "Rejected: ".toList)
      | .ok (some f) =>
        match compileRule regcomp f with
        | .error err => (s, clip 220 ("Rejected: ".toList ++ err))
        | .ok _ => (⟨s.filters ++ [f], appendRule s.file f⟩,
            if enabled then "Spam filter added".toList
            else "Spam filter added (note: [spam] enabled = false, not enforced yet)".toList)
  | .add _ => (s, ("Usage: SPAMFILTER ADD <targets> <block|warn|kill|zline|hide|shun> " ++
      "<duration|-> <reason_with_underscores> <regex>").toList)

/-- The server after it has loaded a file. -/
def spamLoaded (file : Text) : SpamState := ⟨spamReload regcomp file, file⟩

/-- A run of commands. -/
def spamRun (enabled : Bool) (s : SpamState) (cmds : List SpamCommand) : SpamState :=
  cmds.foldl (fun s c => (cmdSpamfilter regcomp enabled s c).1) s

end File

/-! ## 3. A newline at the end of a line -/

theorem dropWhile_newline (s : Text) : (s ++ ['\n']).dropWhile isSpace =
    if s.dropWhile isSpace = [] then [] else s.dropWhile isSpace ++ ['\n'] := by
  rw [List.dropWhile_append]
  by_cases h : s.dropWhile isSpace = []
  · rw [if_pos h, h]
    decide
  · rw [if_neg h, if_neg (by simpa using h)]

theorem trim_newline (s : Text) : trim (s ++ ['\n']) = trim s := by
  rw [trim, trim, dropWhile_newline]
  split
  · next h => rw [h]
  · rw [List.rdropWhile_concat_pos _ _ _ (by decide)]

theorem scanWord_newline (s : Text) :
    scanWord (s ++ ['\n']) = (scanWord s).map fun r => (r.1, r.2 ++ ['\n']) := by
  simp only [scanWord, dropWhile_newline]
  by_cases h : s.dropWhile isSpace = []
  · simp [h]
  · set t := s.dropWhile isSpace with ht
    have hword : (t ++ ['\n']).takeWhile (fun c => !isSpace c) =
        t.takeWhile fun c => !isSpace c := by
      rw [List.takeWhile_append]
      have hnl : List.takeWhile (fun c => !isSpace c) ['\n'] = [] := by decide
      split
      · next hall =>
        rw [hnl, List.append_nil]
        exact ((List.takeWhile_prefix _).eq_of_length hall).symm
      · rfl
    rw [if_neg h, hword]
    split
    · rfl
    · have hle : ((t.takeWhile fun c => !isSpace c).take 15).length ≤ t.length :=
        le_trans (List.length_take_le' _ _) (List.takeWhile_prefix _).length_le
      rw [List.drop_append_of_le_length hle]
      rfl

theorem parseReason_newline {p : Text} (h : p ≠ []) :
    parseReason (p ++ ['\n']) = parseReason p := by
  obtain ⟨c, q, rfl⟩ := List.exists_cons_of_ne_nil h
  by_cases hc : c = '"'
  · subst hc
    cases hq : strchr '"' q with
    | none =>
      have hmem : '"' ∉ q ++ ['\n'] := by simpa using strchr_eq_none.mp hq
      simp only [List.cons_append, parseReason, hq, strchr_eq_none.mpr hmem]
    | some r =>
      obtain ⟨reason, rest⟩ := r
      have hfound : strchr '"' (q ++ ['\n']) = some (reason, rest ++ ['\n']) := by
        obtain ⟨rfl, hno⟩ := strchr_some hq
        rw [List.append_assoc, List.cons_append, strchr_append hno]
      simp only [List.cons_append, parseReason, hq, hfound, trim_newline]
  · unfold parseReason
    split
    · next heq => exact absurd (List.cons.inj heq).1 hc
    · split
      · next heq => exact absurd (List.cons.inj heq).1 hc
      · rfl

theorem parseFields_newline (tgt act dur r : Text) :
    parseFields tgt act dur ((r ++ ['\n']).dropWhile isSpace) =
      parseFields tgt act dur (r.dropWhile isSpace) := by
  have hreason : parseReason ((r ++ ['\n']).dropWhile isSpace) =
      parseReason (r.dropWhile isSpace) := by
    rw [dropWhile_newline]
    split
    · next h => rw [h]
    · next h => exact parseReason_newline h
  simp only [parseFields, hreason]

/-- `parse_line` does not look at the newline that `fgets` leaves. -/
theorem parseLine_newline (line : Text) : parseLine (line ++ ['\n']) = parseLine line := by
  unfold parseLine
  rw [dropWhile_newline]
  cases hl : line.dropWhile isSpace with
  | nil => rfl
  | cons c rest =>
    simp only [reduceCtorEq, if_false, List.cons_append]
    split
    · rfl
    · have hscan : scanRule (c :: (rest ++ ['\n'])) = (scanWord (c :: rest)).bind fun tgt =>
          (scanWord tgt.2).bind fun act => (scanWord act.2).map fun dur =>
            (tgt.1, act.1, dur.1, (dur.2 ++ ['\n']).dropWhile isSpace) := by
        rw [← List.cons_append, scanRule, scanWord_newline]
        cases scanWord (c :: rest) with
        | none => rfl
        | some tgt =>
          simp only [Option.map_some, Option.bind_some, scanWord_newline]
          cases scanWord tgt.2 with
          | none => rfl
          | some act =>
            simp only [Option.map_some, Option.bind_some, scanWord_newline]
            cases scanWord act.2 <;> rfl
      rw [hscan, scanRule]
      cases scanWord (c :: rest) with
      | none => rfl
      | some tgt =>
        simp only [Option.bind_some]
        cases scanWord tgt.2 with
        | none => rfl
        | some act =>
          simp only [Option.bind_some]
          cases scanWord act.2 with
          | none => rfl
          | some dur => simp only [Option.map_some, parseFields_newline]

/-! ## 4. What was parsed is written and parsed again

`format_rule` and `parse_line` are inverse to one another as far as the words fit. The duration is
the only word that may grow beyond fifteen characters. -/

/-- What `parse_line` promises of a rule: it has targets, its reason has no quote, its pattern is
trimmed and not empty, and both texts fit their fields. -/
structure RuleOk (f : SpamFilter) : Prop where
  targets : f.targets.Nonempty
  reason_short : f.reason.length < 128
  no_quote : '"' ∉ f.reason
  pattern_trim : trim f.pattern = f.pattern
  pattern_ne_nil : f.pattern ≠ []
  pattern_short : f.pattern.length < 256

/-- The letters of some targets. -/
def targetLetters (targets : Finset SpamTarget) : Text :=
  (spamTargetLetters.filter fun t => t.2 ∈ targets).map Prod.fst

/-- The duration field of a written rule. -/
def durationText (n : Nat) : Text := if n = 0 then ['-'] else decimal n ++ ['s']

/-- A word that `%15s` takes whole. -/
structure ScanWord (w : Text) : Prop where
  ne_nil : w ≠ []
  no_space : ∀ c ∈ w, isSpace c = false
  short : w.length ≤ 15

theorem scanWord_word {w : Text} (h : ScanWord w) (r : Text) :
    scanWord (w ++ ' ' :: r) = some (w, ' ' :: r) := by
  obtain ⟨c, cs, rfl⟩ := List.exists_cons_of_ne_nil h.ne_nil
  have hdrop : (c :: cs ++ ' ' :: r).dropWhile isSpace = c :: cs ++ ' ' :: r := by
    rw [List.cons_append, List.dropWhile_cons_of_neg (by simp [h.no_space c])]
  have htake : (c :: cs ++ ' ' :: r).takeWhile (fun c => !isSpace c) = c :: cs := by
    rw [List.takeWhile_append_of_pos fun x hx => by simp [h.no_space x hx]]
    simp [isSpace]
  simp only [scanWord, hdrop, htake, List.take_of_length_le h.short, List.drop_left, reduceCtorEq,
    if_false]

theorem scanWord_space (s : Text) : scanWord (' ' :: s) = scanWord s := by
  have hsp : isSpace ' ' = true := by decide
  rw [scanWord, scanWord, List.dropWhile_cons_of_pos hsp]

theorem mem_targetLetters {targets : Finset SpamTarget} {c : Char}
    (h : c ∈ targetLetters targets) : c ∈ "pcnNaqPt".toList := by
  obtain ⟨t, ht, rfl⟩ := List.mem_map.mp h
  have hall : ∀ t ∈ spamTargetLetters, t.1 ∈ "pcnNaqPt".toList := by decide
  exact hall t (List.mem_filter.mp ht).1

theorem exists_letter (t : SpamTarget) : ∃ c, (c, t) ∈ spamTargetLetters := by
  cases t <;> simp [spamTargetLetters]

theorem scanWord_targetLetters {targets : Finset SpamTarget} (h : targets.Nonempty) :
    ScanWord (targetLetters targets) where
  ne_nil := by
    obtain ⟨t, ht⟩ := h
    obtain ⟨c, hc⟩ := exists_letter t
    exact List.ne_nil_of_mem (List.mem_map_of_mem (List.mem_filter.mpr ⟨hc, by simpa using ht⟩))
  no_space := by
    intro c hc
    have hall : ∀ c ∈ "pcnNaqPt".toList, isSpace c = false := by decide
    exact hall c (mem_targetLetters hc)
  short := by
    have := List.length_filter_le (fun t : Char × SpamTarget => t.2 ∈ targets) spamTargetLetters
    have h8 : spamTargetLetters.length = 8 := rfl
    rw [targetLetters, List.length_map]
    omega

theorem foldl_letters : ∀ (l : List (Char × SpamTarget)) (m : Finset SpamTarget),
    (∀ t ∈ l, spamTargetLetters.lookup t.1 = some t.2) →
    (l.map Prod.fst).foldl (fun m c => m.bind fun m =>
        (spamTargetLetters.lookup c).map fun t => insert t m) (some m) =
      some (m ∪ (l.map Prod.snd).toFinset)
  | [], m, _ => by simp
  | t :: l, m, h => by
    rw [List.map_cons, List.foldl_cons, Option.bind_some, h t (List.mem_cons_self ..),
      Option.map_some, foldl_letters l (insert t.2 m) fun x hx => h x (List.mem_cons_of_mem _ hx)]
    congr 1
    ext x
    simp only [Finset.mem_union, Finset.mem_insert, List.mem_toFinset, List.map_cons, List.mem_cons]
    tauto

theorem spamParseTargets_nonempty {s : Text} {targets : Finset SpamTarget}
    (h : spamParseTargets s = some targets) : targets.Nonempty := by
  have hfold : ∀ (s : Text) (m : Option (Finset SpamTarget)) (targets : Finset SpamTarget),
      s.foldl (fun m c => m.bind fun m => (spamTargetLetters.lookup c).map fun t => insert t m) m =
        some targets → s ≠ [] ∨ (∀ x ∈ m, x.Nonempty) → targets.Nonempty := by
    intro s
    induction s with
    | nil =>
      intro m targets heq hne
      exact (hne.resolve_left (by simp)) targets heq
    | cons c s ih =>
      intro m targets heq _
      rw [List.foldl_cons] at heq
      refine ih _ targets heq (Or.inr fun x hx => ?_)
      obtain ⟨y, -, hy⟩ := Option.bind_eq_some_iff.mp hx
      obtain ⟨t, -, rfl⟩ := Option.map_eq_some_iff.mp hy
      exact Finset.insert_nonempty t y
  unfold spamParseTargets at h
  split at h
  · cases h
  · next hne => exact hfold s _ targets h (Or.inl hne)

theorem spamParseTargets_letters {targets : Finset SpamTarget} (h : targets.Nonempty) :
    spamParseTargets (targetLetters targets) = some targets := by
  have hlookup : ∀ t ∈ spamTargetLetters, spamTargetLetters.lookup t.1 = some t.2 := by decide
  have hfold := foldl_letters (spamTargetLetters.filter fun t => t.2 ∈ targets) ∅
    fun t ht => hlookup t (List.mem_filter.mp ht).1
  rw [spamParseTargets, if_neg (scanWord_targetLetters h).ne_nil, targetLetters, hfold]
  congr 1
  ext t
  simp only [Finset.empty_union, List.mem_toFinset, List.mem_map, List.mem_filter,
    decide_eq_true_eq]
  constructor
  · rintro ⟨x, ⟨-, hx⟩, rfl⟩
    exact hx
  · intro ht
    obtain ⟨c, hc⟩ := exists_letter t
    exact ⟨(c, t), ⟨hc, ht⟩, rfl⟩

theorem scanWord_action (a : SpamAction) : ScanWord a.name := by
  cases a <;> constructor <;> decide

theorem parseAction_name (a : SpamAction) : parseAction a.name = some a := by
  cases a <;> decide

theorem le_ofDigitChars : ∀ (ds : Text) (n : Nat), n ≤ Nat.ofDigitChars 10 ds n
  | [], n => le_refl n
  | d :: ds, n => by
    have ih := le_ofDigitChars ds (10 * n + (d.toNat - '0'.toNat))
    rw [Nat.ofDigitChars_cons]
    omega

/-- A number that is not too large is read as it is. -/
theorem durationDigits_eq : ∀ (ds : Text) (n : Nat),
    Nat.ofDigitChars 10 ds n ≤ (durationMax - 9) / 10 →
    durationDigits n ds = Nat.ofDigitChars 10 ds n
  | [], _, _ => rfl
  | d :: ds, n, h => by
    rw [Nat.ofDigitChars_cons] at h ⊢
    have hle := le_ofDigitChars ds (10 * n + (d.toNat - '0'.toNat))
    have hmin : min n ((durationMax - 9) / 10) = n := by omega
    have hstep : durationDigits n (d :: ds) =
        durationDigits (10 * n + (d.toNat - '0'.toNat)) ds := by
      simp only [durationDigits, List.foldl_cons, hmin, Nat.mul_comm n 10]
    rw [hstep, durationDigits_eq ds _ h]

/-- The longest duration whose digits and unit are fifteen characters. -/
def durationShort : Nat := 10 ^ 14

theorem scanWord_durationText {n : Nat} (h : n < durationShort) : ScanWord (durationText n) := by
  unfold durationText
  split
  · constructor <;> decide
  · have hlen : (decimal n).length ≤ 14 := decimal_length_le (by decide) h
    refine ⟨by simp, fun c hc => ?_, ?_⟩
    · rcases List.mem_append.mp hc with hc | hc
      · exact isSpace_of_isDigit (isDigit_of_mem_decimal hc)
      · rw [List.mem_singleton.mp hc]
        decide
    · rw [List.length_append, List.length_singleton]
      omega

theorem parseRuleDuration_durationText {n : Nat} (h : n < durationShort) :
    parseRuleDuration (durationText n) = some n := by
  unfold durationText
  split
  · next h0 => simp [parseRuleDuration, h0]
  · have htake : (decimal n ++ ['s']).takeWhile Char.isDigit = decimal n := by
      rw [List.takeWhile_append_of_pos fun c hc => isDigit_of_mem_decimal hc]
      simp
    have hdrop : (decimal n ++ ['s']).dropWhile Char.isDigit = ['s'] := by
      rw [List.dropWhile_append_of_pos fun c hc => isDigit_of_mem_decimal hc]
      simp
    have hne : decimal n ++ ['s'] ≠ ['-'] := by
      intro heq
      have := congrArg List.getLast? heq
      simp at this
    have hval : Nat.ofDigitChars 10 (decimal n) 0 = n :=
      Nat.ofDigitChars_toDigits (by decide) (by decide)
    have hdigits : durationDigits 0 (decimal n) = n := by
      have hle : n ≤ (durationMax - 9) / 10 := by
        simp only [durationMax, durationShort] at *
        omega
      rw [durationDigits_eq _ _ (hval.symm ▸ hle), hval]
    have hmax : ¬durationMax / 1 < n := by
      simp only [durationMax, durationShort] at *
      omega
    have hunit : durationUnit ['s'] = some 1 := by decide
    rw [parseRuleDuration, if_neg hne]
    simp only [ircParseDuration, htake, hdrop, decimal_ne_nil, if_false, hunit, Option.map_some,
      hdigits, hmax, Nat.mul_one]

theorem ruleText_eq (f : SpamFilter) : ruleText f =
    targetLetters f.targets ++ ' ' :: (f.action.name ++ ' ' :: (durationText f.duration ++ ' ' ::
      '"' :: (f.reason ++ '"' :: ' ' :: f.pattern))) := by
  simp [ruleText, targetLetters, durationText, List.append_assoc]

theorem parseReason_written {f : SpamFilter} (h : RuleOk f) :
    parseReason ('"' :: (f.reason ++ '"' :: ' ' :: f.pattern)) = .ok (f.reason, f.pattern) := by
  have htrim : trim (' ' :: f.pattern) = f.pattern := by
    have hsp : isSpace ' ' = true := by decide
    rw [trim, List.dropWhile_cons_of_pos hsp]
    exact h.pattern_trim
  have hle : ¬256 ≤ f.pattern.length := by have := h.pattern_short; omega
  simp only [parseReason, strchr_append h.no_quote, htrim, h.pattern_ne_nil, if_false, hle,
    clip_of_fits h.reason_short]

/-- A written rule is no comment, and its words are looked at. -/
theorem parseLine_of_scan {f : SpamFilter} (h : f.targets.Nonempty) {tgt act dur p : Text}
    (hscan : scanRule (ruleText f) = some (tgt, act, dur, p)) :
    parseLine (ruleText f) = (parseFields tgt act dur p).map some := by
  have htgt := scanWord_targetLetters h
  obtain ⟨c, cs, hc⟩ := List.exists_cons_of_ne_nil htgt.ne_nil
  have hmem : c ∈ targetLetters f.targets := by simp [hc]
  have hhead : c ≠ '#' := by
    rintro rfl
    exact absurd (mem_targetLetters hmem) (by decide)
  obtain ⟨rest, htext⟩ : ∃ rest, ruleText f = c :: rest := by
    rw [ruleText_eq, hc]
    exact ⟨_, rfl⟩
  rw [htext] at hscan ⊢
  rw [parseLine, List.dropWhile_cons_of_neg (by simp [htgt.no_space c hmem])]
  simp only [hhead, if_false, hscan]

/-- **A rule that was parsed is parsed again as it is written.** -/
theorem parseLine_ruleText {f : SpamFilter} (h : RuleOk f) (hd : f.duration < durationShort) :
    parseLine (ruleText f) = .ok (some f) := by
  have hsp : isSpace ' ' = true := by decide
  have hq : isSpace '"' = false := by decide
  have hscan : scanRule (ruleText f) = some (targetLetters f.targets, f.action.name,
      durationText f.duration, '"' :: (f.reason ++ '"' :: ' ' :: f.pattern)) := by
    rw [scanRule, ruleText_eq, scanWord_word (scanWord_targetLetters h.targets), Option.bind_some,
      scanWord_space, scanWord_word (scanWord_action f.action), Option.bind_some, scanWord_space,
      scanWord_word (scanWord_durationText hd), Option.map_some,
      List.dropWhile_cons_of_pos hsp, List.dropWhile_cons_of_neg (by simp [hq])]
  have hfields : parseFields (targetLetters f.targets) f.action.name (durationText f.duration)
      ('"' :: (f.reason ++ '"' :: ' ' :: f.pattern)) = .ok f := by
    simp only [parseFields, spamParseTargets_letters h.targets, parseAction_name,
      parseRuleDuration_durationText hd, parseReason_written h]
    rfl
  rw [parseLine_of_scan h.targets hscan, hfields]
  rfl

theorem scanWord_long {w : Text} (hsp : ∀ c ∈ w, isSpace c = false) (hlen : 15 < w.length)
    (r : Text) : scanWord (w ++ ' ' :: r) = some (w.take 15, w.drop 15 ++ ' ' :: r) := by
  have hpos : 0 < w.length := by omega
  obtain ⟨c, cs, rfl⟩ := List.exists_cons_of_ne_nil (List.ne_nil_of_length_pos hpos)
  have hdrop : (c :: cs ++ ' ' :: r).dropWhile isSpace = c :: cs ++ ' ' :: r := by
    rw [List.cons_append, List.dropWhile_cons_of_neg (by simp [hsp c])]
  have htake : (c :: cs ++ ' ' :: r).takeWhile (fun c => !isSpace c) = c :: cs := by
    rw [List.takeWhile_append_of_pos fun x hx => by simp [hsp x hx]]
    simp [isSpace]
  have h15 : ((c :: cs).take 15).length = 15 := by
    rw [List.length_take]
    omega
  have hne : (c :: cs).take 15 ≠ [] := by simp
  simp only [scanWord, hdrop, htake, hne, if_false, h15,
    List.drop_append_of_le_length (Nat.le_of_lt hlen)]

/-- What stands before the reason must be a quote. -/
theorem parseReason_unquoted {c : Char} {p : Text} (h : c ≠ '"') :
    ∃ e, parseReason (c :: p) = .error e := by
  unfold parseReason
  split
  · next heq => exact absurd (List.cons.inj heq).1 h
  · exact ⟨_, rfl⟩

theorem mem_durationText {n : Nat} {c : Char} (h : c ∈ durationText n) :
    isSpace c = false ∧ c ≠ '"' := by
  unfold durationText at h
  split at h
  · rw [List.mem_singleton.mp h]
    decide
  · rcases List.mem_append.mp h with h | h
    · have hdig := isDigit_of_mem_decimal h
      refine ⟨isSpace_of_isDigit hdig, ?_⟩
      rintro rfl
      exact absurd hdig (by decide)
    · rw [List.mem_singleton.mp h]
      decide

/-- A longer duration is not read back: what is left of it stands where the reason should. -/
theorem long_duration_lost {f : SpamFilter} (h : RuleOk f) (hd : durationShort ≤ f.duration) :
    ∃ e, parseLine (ruleText f) = .error e := by
  have hlen : 15 < (durationText f.duration).length := by
    have hpos : f.duration ≠ 0 := by
      simp only [durationShort] at hd
      omega
    have hdigits : 14 < (decimal f.duration).length := by
      by_contra hle
      have hlt := (Nat.length_toDigits_le_iff (by decide) (by decide)).mp (not_lt.mp hle)
      exact absurd hlt (not_lt.mpr hd)
    simp only [durationText, hpos, if_false, List.length_append, List.length_singleton]
    omega
  have hrest : 0 < ((durationText f.duration).drop 15).length := by
    rw [List.length_drop]
    omega
  obtain ⟨c, cs, hc⟩ := List.exists_cons_of_ne_nil (List.ne_nil_of_length_pos hrest)
  have hmem : c ∈ (durationText f.duration).drop 15 := by simp [hc]
  have hchar := mem_durationText (List.mem_of_mem_drop hmem)
  obtain ⟨e, he⟩ := parseReason_unquoted
    (p := cs ++ ' ' :: '"' :: (f.reason ++ '"' :: ' ' :: f.pattern)) hchar.2
  have hsp : isSpace ' ' = true := by decide
  have hscan : scanRule (ruleText f) = some (targetLetters f.targets, f.action.name,
      (durationText f.duration).take 15,
      c :: (cs ++ ' ' :: '"' :: (f.reason ++ '"' :: ' ' :: f.pattern))) := by
    rw [scanRule, ruleText_eq, scanWord_word (scanWord_targetLetters h.targets), Option.bind_some,
      scanWord_space, scanWord_word (scanWord_action f.action), Option.bind_some, scanWord_space,
      scanWord_long (fun c hc => (mem_durationText hc).1) hlen, Option.map_some, hc,
      List.cons_append, List.dropWhile_cons_of_neg (by simp [hchar.1])]
  rw [parseLine_of_scan h.targets hscan]
  simp only [parseFields, spamParseTargets_letters h.targets, parseAction_name, he]
  cases parseRuleDuration ((durationText f.duration).take 15) <;> exact ⟨_, rfl⟩

/-! ## 5. What is parsed can be written -/

theorem trim_trim (q : Text) : trim (trim q) = trim q := by
  have hdrop : (trim q).dropWhile isSpace = trim q := by
    cases hd : q.dropWhile isSpace with
    | nil => simp [trim, hd]
    | cons c cs =>
      have hc : isSpace c = false := by
        have hnot : ∀ x ∈ (q.dropWhile isSpace).head?, isSpace x = false := by
          intro x hx
          have hx' := List.head?_dropWhile_not isSpace q
          rw [hx] at hx'
          exact hx'
        exact hnot c (by rw [hd]; rfl)
      obtain ⟨r, hr⟩ := List.rdropWhile_prefix isSpace (c :: cs)
      rw [trim, hd]
      cases hp : (c :: cs).rdropWhile isSpace with
      | nil => rfl
      | cons d ds =>
        rw [hp, List.cons_append] at hr
        rw [(List.cons.inj hr).1, List.dropWhile_cons_of_neg (by simp [hc])]
  rw [trim, hdrop, trim, List.rdropWhile_idempotent]

theorem mem_of_mem_trim {q : Text} {c : Char} (h : c ∈ trim q) : c ∈ q :=
  (List.dropWhile_suffix _).mem ((List.rdropWhile_prefix _ _).mem h)

theorem scanWord_suffix {s w r : Text} (h : scanWord s = some (w, r)) : r <:+ s := by
  simp only [scanWord] at h
  split at h
  · exact absurd h (by simp)
  · obtain ⟨-, rfl⟩ := Prod.mk.inj (Option.some.inj h)
    exact (List.drop_suffix _ _).trans (List.dropWhile_suffix _)

theorem parseReason_ok {p : Text} {r : Text × Text} (h : parseReason p = .ok r) :
    '"' ∉ r.1 ∧ r.1.length < 128 ∧ trim r.2 = r.2 ∧ r.2 ≠ [] ∧ r.2.length < 256 ∧
      ∀ c, c ∈ r.1 ∨ c ∈ r.2 → c ∈ p := by
  unfold parseReason at h
  split at h
  · next q =>
    split at h
    · cases h
    · next reason rest hq =>
      split at h
      · cases h
      · next hne =>
        split at h
        · cases h
        · next hlen =>
          obtain rfl := Except.ok.inj h
          obtain ⟨rfl, hno⟩ := strchr_some hq
          have hclip := clip_length_le 128 reason
          refine ⟨fun hm => hno (mem_of_mem_clip hm), by simp only; omega, trim_trim rest, hne,
            by simp only; omega, fun c hc => ?_⟩
          rcases hc with hc | hc
          · have := mem_of_mem_clip hc
            simp [this]
          · have := mem_of_mem_trim hc
            simp [this]
  · cases h

/-- **A rule that was parsed keeps to the format**, and its texts come from the line. -/
theorem parseLine_ok {line : Text} {f : SpamFilter} (h : parseLine line = .ok (some f)) :
    RuleOk f ∧ ∀ c, c ∈ f.reason ∨ c ∈ f.pattern → c ∈ line := by
  have hsuf := List.dropWhile_suffix isSpace (l := line)
  unfold parseLine at h
  split at h
  · cases h
  · next c rest hl =>
    rw [hl] at hsuf
    split at h
    · cases h
    · split at h
      · cases h
      · next tgt act dur p hscan =>
        -- the words are read one behind the other, so `p` is a suffix of the line
        have hp : p <:+ c :: rest := by
          unfold scanRule at hscan
          obtain ⟨⟨w1, r1⟩, h1, hscan⟩ := Option.bind_eq_some_iff.mp hscan
          obtain ⟨⟨w2, r2⟩, h2, hscan⟩ := Option.bind_eq_some_iff.mp hscan
          obtain ⟨⟨w3, r3⟩, h3, hscan⟩ := Option.map_eq_some_iff.mp hscan
          obtain ⟨rfl, rfl, rfl, rfl⟩ : w1 = tgt ∧ w2 = act ∧ w3 = dur ∧
              r3.dropWhile isSpace = p := by simpa using hscan
          exact (List.dropWhile_suffix _).trans ((scanWord_suffix h3).trans
            ((scanWord_suffix h2).trans (scanWord_suffix h1)))
        unfold parseFields at h
        split at h
        · cases h
        · next targets htargets =>
          split at h
          · cases h
          · next action haction =>
            split at h
            · cases h
            · next duration hduration =>
              cases hr : parseReason p with
              | error e =>
                rw [hr] at h
                cases h
              | ok r =>
                rw [hr] at h
                obtain rfl : SpamFilter.mk targets action duration r.1 r.2 = f :=
                  Option.some.inj (Except.ok.inj h)
                obtain ⟨hq, hrl, htrim, hne, hpl, hmem⟩ := parseReason_ok hr
                exact ⟨⟨spamParseTargets_nonempty htargets, hrl, hq, htrim, hne, hpl⟩,
                  fun c hc => hsuf.mem (hp.mem (hmem c hc))⟩

/-! ## 6. A command and the file

Appending a line adds its rule behind the others, if the file ends with a newline or is given one;
rewriting drops one line and keeps the others as they were. -/

/-- A command that came in on a line. -/
def SpamCommand.FromLine : SpamCommand → Prop
  | .add params => ∀ p ∈ params, '\n' ∉ p
  | .del _ => True

section Reload

variable {regcomp : Text → Except Text Bool}

theorem lineRule_newline (line : Text) :
    lineRule regcomp (line ++ ['\n']) = lineRule regcomp line := by
  simp only [lineRule, parseLine_newline]

theorem lineRule_ok {line : Text} {f : SpamFilter} (h : lineRule regcomp line = some f) :
    parseLine line = .ok (some f) ∧ compileRule regcomp f = .ok () := by
  unfold lineRule at h
  split at h
  · next g hg =>
    split at h
    · next hok =>
      obtain rfl := Option.some.inj h
      exact ⟨hg, hok⟩
    · cases h
  · cases h

/-- Whether a rule compiles is a matter of its pattern. -/
theorem compileRule_pattern {f g : SpamFilter} (h : f.pattern = g.pattern) :
    compileRule regcomp f = compileRule regcomp g := by
  simp only [compileRule, h]

/-- Dropping the first line whose rule is like the victim drops the first rule that is. -/
theorem filterMap_eraseP {victim : SpamFilter} (hv : compileRule regcomp victim = .ok ())
    (lines : List Text) :
    (lines.eraseP (isLineOf victim)).filterMap (lineRule regcomp) =
      (lines.filterMap (lineRule regcomp)).eraseP (sameRule victim) := by
  induction lines with
  | nil => rfl
  | cons line lines ih =>
    cases hp : isLineOf victim line with
    | true =>
      obtain ⟨f, hf, hsame⟩ : ∃ f, parseLine line = .ok (some f) ∧ sameRule victim f = true := by
        unfold isLineOf at hp
        split at hp
        · next f hf => exact ⟨f, hf, hp⟩
        · cases hp
      have hpat : f.pattern = victim.pattern := (of_decide_eq_true hsame).2.2
      have hrule : lineRule regcomp line = some f := by
        simp only [lineRule, hf, compileRule_pattern hpat, hv]
      rw [List.eraseP_cons_of_pos hp, List.filterMap_cons_some hrule, List.eraseP_cons_of_pos hsame]
    | false =>
      rw [List.eraseP_cons_of_neg (by simp [hp]), List.filterMap_cons, List.filterMap_cons, ih]
      cases hrule : lineRule regcomp line with
      | none => rfl
      | some f =>
        have hsame : sameRule victim f = false := by
          rw [isLineOf, (lineRule_ok hrule).1] at hp
          exact hp
        simp only [List.eraseP_cons_of_neg (Bool.not_eq_true _ ▸ hsame)]

/-- The lines that are kept are read again as they were. -/
theorem fileRules_rewriteWithout {victim : SpamFilter} (hv : compileRule regcomp victim = .ok ())
    (file : Text) :
    fileRules regcomp (rewriteWithout file victim) =
      (fileRules regcomp file).eraseP (sameRule victim) := by
  have hcut : Chunks.Cut '\n' 699 ((fileLines file).eraseP (isLineOf victim)) :=
    (Chunks.cut_read (by decide) file).sublist (List.eraseP_sublist ..)
  have hread : fileLines (rewriteWithout file victim) =
      (fileLines file).eraseP (isLineOf victim) := Chunks.read_flatten hcut
  rw [fileRules, hread, filterMap_eraseP hv, fileRules]

/-- A written rule is a line, and not too long for the buffer it is read into. -/
theorem ruleText_line {f : SpamFilter} (h : RuleOk f) (hd : f.duration < durationShort)
    (hreason : '\n' ∉ f.reason) (hpattern : '\n' ∉ f.pattern) :
    '\n' ∉ ruleText f ∧ (ruleText f).length < 699 := by
  have htgt := scanWord_targetLetters h.targets
  have hact := scanWord_action f.action
  have hdur := scanWord_durationText hd
  have hword : ∀ {w : Text}, ScanWord w → '\n' ∉ w := fun hw hm =>
    absurd (hw.no_space _ hm) (by decide)
  rw [ruleText_eq]
  constructor
  · simp [hword htgt, hword hact, hword hdur, hreason, hpattern]
  · have h1 := htgt.short
    have h2 := hact.short
    have h3 := hdur.short
    have h4 := h.reason_short
    have h5 := h.pattern_short
    simp only [List.length_append, List.length_cons]
    omega

/-- **A rule that is written to the file is read again behind the others.** -/
theorem fileRules_appendRule {f : SpamFilter} (h : RuleOk f) (hd : f.duration < durationShort)
    (hreason : '\n' ∉ f.reason) (hpattern : '\n' ∉ f.pattern)
    (hf : compileRule regcomp f = .ok ()) (file : Text) :
    fileRules regcomp (appendRule file f) = fileRules regcomp file ++ [f] := by
  obtain ⟨hnl, hlen⟩ := ruleText_line h hd hreason hpattern
  have hnil : lineRule regcomp [] = none := rfl
  have hrule : lineRule regcomp (ruleText f) = some f := by
    simp only [lineRule, parseLine_ruleText h hd, hf]
  have hclip : formatRule f 700 = ruleText f := clip_of_fits (by omega)
  rw [fileRules, fileLines, appendRule, hclip,
    Chunks.filterMap_read_endLine lineRule_newline hnil file hnl hlen, hrule]
  rfl

end Reload

/-! ## 7. Runs

The invariant of a run is that the rules in memory are those that would be read from
the file now. -/

/-- From the first rule that is like the victim on, all rules up to the victim are the same. -/
def SameUpTo (l : List SpamFilter) (i : Nat) (victim : SpamFilter) : Prop :=
  ∀ j ≤ i, (∃ k ≤ j, l[k]?.any (sameRule victim) = true) → l[j]? = some victim

instance (l : List SpamFilter) (i : Nat) (victim : SpamFilter) : Decidable (SameUpTo l i victim) :=
  inferInstanceAs (Decidable (∀ j ≤ i, _))

/-- What a command must keep to. A rule that is added has a duration that fits its field, where it
is accepted: there is room, and it can be read and compiled. A deleted one is, up to where it
stands in the list, the same as every rule that its line could be taken for. -/
def SpamCommand.Meets (regcomp : Text → Except Text Bool) (s : SpamState) : SpamCommand → Prop
  | .add (tgt :: act :: dur :: reason :: word :: words) =>
    s.filters.length < spamMaxFilters →
      ∀ f, parseLine (typedRule tgt act dur reason (word :: words)) = .ok (some f) →
        (compileRule regcomp f).isOk = true → f.duration < durationShort
  | .add _ => True
  | .del number => (fileRules regcomp s.file).length ≤ spamMaxFilters ∧
    ∀ victim ∈ s.filters[(number.elim 0 atoi - 1).toNat]?,
      SameUpTo s.filters (number.elim 0 atoi - 1).toNat victim

/-- Every command of a run keeps to it. -/
abbrev MeetsAll (regcomp : Text → Except Text Bool) (enabled : Bool) :
    SpamState → List SpamCommand → Prop :=
  Runs.Throughout (fun s c => (cmdSpamfilter regcomp enabled s c).1) fun s c => c.Meets regcomp s

theorem eraseIdx_of_all {v : SpamFilter} : ∀ {l : List SpamFilter} {i : Nat},
    (∀ j ≤ i, l[j]? = some v) → v :: l.eraseIdx i = l
  | [], i, h => absurd (h 0 (Nat.zero_le i)) (by simp)
  | a :: l, i, h => by
    obtain rfl : a = v := by simpa using h 0 (Nat.zero_le i)
    cases i with
    | zero => rfl
    | succ i =>
      have ih := eraseIdx_of_all fun j hj => by simpa using h (j + 1) (Nat.succ_le_succ hj)
      rw [List.eraseIdx_cons_succ, ih]

/-- Which of some equal rules is erased does not matter. -/
theorem eraseIdx_eq_eraseP {v : SpamFilter} : ∀ {l : List SpamFilter} {i : Nat},
    l[i]? = some v → SameUpTo l i v → l.eraseIdx i = l.eraseP (sameRule v)
  | [], _, hi, _ => absurd hi (by simp)
  | a :: l, i, hi, h => by
    cases hp : sameRule v a with
    | true =>
      have hall : ∀ j ≤ i, (a :: l)[j]? = some v := fun j hj => h j hj ⟨0, Nat.zero_le j, hp⟩
      obtain rfl : a = v := by simpa using hall 0 (Nat.zero_le i)
      have herase := eraseIdx_of_all hall
      rw [List.eraseP_cons_of_pos hp]
      exact (List.cons.inj herase).2
    | false =>
      have hself : sameRule v v = true := by simp [sameRule]
      cases i with
      | zero =>
        obtain rfl : a = v := by simpa using hi
        rw [hself] at hp
        cases hp
      | succ i =>
        have htail : SameUpTo l i v := by
          rintro j hj ⟨k, hk, hany⟩
          have := h (j + 1) (Nat.succ_le_succ hj) ⟨k + 1, Nat.succ_le_succ hk, by simpa using hany⟩
          simpa using this
        have ih := eraseIdx_eq_eraseP (by simpa using hi) htail
        rw [List.eraseIdx_cons_succ, ih, List.eraseP_cons_of_neg (by simp [hp])]

theorem mem_typedReason {s : Text} {c : Char} (h : c ∈ typedReason s) :
    c ∈ s ∨ c = ' ' ∨ c = '\'' := by
  obtain ⟨d, hd, rfl⟩ := List.mem_map.mp h
  split
  · exact Or.inr (Or.inl rfl)
  · split
    · exact Or.inr (Or.inr rfl)
    · exact Or.inl (mem_of_mem_clip hd)

theorem mem_joinSep {sep c : Char} : ∀ {ws : List Text}, c ∈ joinSep sep ws →
    c = sep ∨ ∃ w ∈ ws, c ∈ w
  | [], h => absurd h (by simp)
  | w :: ws, h => by
    rw [joinSep_eq_flatMap, List.mem_append, List.mem_flatMap] at h
    rcases h with h | ⟨v, hv, h⟩
    · exact Or.inr ⟨w, List.mem_cons_self .., h⟩
    · rcases List.mem_cons.mp h with rfl | h
      · exact Or.inl rfl
      · exact Or.inr ⟨v, List.mem_cons_of_mem w hv, h⟩

theorem typedRule_line {tgt act dur reason : Text} {pattern : List Text}
    (h : ∀ p ∈ tgt :: act :: dur :: reason :: pattern, '\n' ∉ p) :
    '\n' ∉ typedRule tgt act dur reason pattern := by
  intro hm
  have hm := mem_of_mem_clip hm
  have htgt := h tgt (by simp)
  have hact := h act (by simp)
  have hdur := h dur (by simp)
  have hreason : '\n' ∉ typedReason reason := by
    intro hr
    rcases mem_typedReason hr with hr | hr | hr
    · exact h reason (by simp) hr
    · exact absurd hr (by decide)
    · exact absurd hr (by decide)
  have hpattern : '\n' ∉ typedPattern pattern := by
    intro hp
    rcases mem_joinSep (mem_of_mem_clip hp) with hp | ⟨w, hw, hp⟩
    · exact absurd hp (by decide)
    · exact h w (by simp [hw]) hp
  simp [htgt, hact, hdur, hreason, hpattern] at hm

theorem compiles_of_mem_reload {regcomp : Text → Except Text Bool} {file : Text} {f : SpamFilter}
    (h : f ∈ spamReload regcomp file) : compileRule regcomp f = .ok () := by
  obtain ⟨line, -, hline⟩ := List.mem_filterMap.mp (List.mem_of_mem_take h)
  exact (lineRule_ok hline).2

section Run

variable {regcomp : Text → Except Text Bool} {enabled : Bool}

/-- A rule that is deleted is deleted from the file. -/
theorem del_reload {s : SpamState} {number : Option Text}
    (h : s.filters = spamReload regcomp s.file) (hm : (SpamCommand.del number).Meets regcomp s) :
    (cmdSpamfilter regcomp enabled s (.del number)).1.filters =
      spamReload regcomp (cmdSpamfilter regcomp enabled s (.del number)).1.file := by
  obtain ⟨hlen, hsame⟩ := hm
  have hall : spamReload regcomp s.file = fileRules regcomp s.file := List.take_of_length_le hlen
  simp only [cmdSpamfilter]
  split
  · exact h
  · next victim hvictim =>
    split at hvictim
    · cases hvictim
    · next hpos =>
      have hv : compileRule regcomp victim = .ok () :=
        compiles_of_mem_reload (h ▸ List.mem_of_getElem? hvictim)
      have herase : s.filters.eraseIdx (number.elim 0 atoi - 1).toNat =
          s.filters.eraseP (sameRule victim) :=
        eraseIdx_eq_eraseP hvictim (hsame victim hvictim)
      have hle : (s.filters.eraseP (sameRule victim)).length ≤ spamMaxFilters := by
        refine le_trans (List.length_eraseP_le ..) ?_
        rw [h, hall]
        exact hlen
      rw [herase, spamReload, fileRules_rewriteWithout hv, ← hall, ← h,
        List.take_of_length_le hle]

/-- A rule that is added is added to the file. -/
theorem add_reload {s : SpamState} {params : List Text}
    (h : s.filters = spamReload regcomp s.file) (hline : (SpamCommand.add params).FromLine)
    (hm : (SpamCommand.add params).Meets regcomp s) :
    (cmdSpamfilter regcomp enabled s (.add params)).1.filters =
      spamReload regcomp (cmdSpamfilter regcomp enabled s (.add params)).1.file := by
  unfold cmdSpamfilter
  split
  · next heq => cases heq
  · next tgt act dur reason word words heq =>
    obtain rfl := SpamCommand.add.inj heq
    split
    · exact h
    · next hroom =>
      have hlen : (fileRules regcomp s.file).length < spamMaxFilters := by
        rw [h, spamReload, List.length_take] at hroom
        omega
      split
      · exact h
      · exact h
      · next f hf =>
        split
        · exact h
        · next hcompile =>
          obtain ⟨hok, hmem⟩ := parseLine_ok hf
          have hnl := typedRule_line hline
          have hrules : fileRules regcomp (appendRule s.file f) = fileRules regcomp s.file ++ [f] :=
            fileRules_appendRule hok (hm (Nat.lt_of_not_le hroom) f hf (by rw [hcompile]; rfl)) (fun hc => hnl (hmem _ (Or.inl hc)))
              (fun hc => hnl (hmem _ (Or.inr hc))) hcompile s.file
          have hshort : (fileRules regcomp s.file ++ [f]).length ≤ spamMaxFilters := by
            rw [List.length_append, List.length_singleton]
            omega
          rw [spamReload, hrules, List.take_of_length_le hshort, h, spamReload,
            List.take_of_length_le hlen.le]
  · exact h

/-- **Reloading the file changes nothing**, whatever rules were added and deleted. The run starts
from any file, and each of its commands came in on a line. A rule lives twice, in memory and in its
line of the file, and the condition on a step is that a DEL drops the line of the very rule that it
takes out of the list. -/
theorem rules_survive_reload (regcomp : Text → Except Text Bool) (enabled : Bool) (file : Text)
    (cmds : List SpamCommand) (hline : ∀ c ∈ cmds, c.FromLine)
    (hmeets : MeetsAll regcomp enabled (spamLoaded regcomp file) cmds) :
    (spamRun regcomp enabled (spamLoaded regcomp file) cmds).filters =
      spamReload regcomp (spamRun regcomp enabled (spamLoaded regcomp file) cmds).file := by
  have hrun : ∀ (cmds : List SpamCommand) (s : SpamState), (∀ c ∈ cmds, c.FromLine) →
      MeetsAll regcomp enabled s cmds → s.filters = spamReload regcomp s.file →
      (spamRun regcomp enabled s cmds).filters =
        spamReload regcomp (spamRun regcomp enabled s cmds).file := by
    intro cmds
    induction cmds with
    | nil => exact fun _ _ _ h => h
    | cons c cmds ih =>
      intro s hline hmeets h
      refine ih _ (fun c hc => hline c (List.mem_cons_of_mem _ hc)) hmeets.2 ?_
      cases c with
      | add params => exact add_reload h (hline _ (List.mem_cons_self ..)) hmeets.1
      | del number => exact del_reload h hmeets.1
  exact hrun cmds _ hline hmeets rfl

end Run

/-- A `regcomp` for patterns that are plain words. -/
def plainRegcomp (_ : Text) : Except Text Bool := .ok false

theorem rules_survive_reload_demo :
    let file := "# filters\np block 1h \"no\" foo\nc kill - \"bad\" bar".toList
    let cmds := [SpamCommand.add ["n".toList, "zline".toList, "2d".toList, "go_away".toList,
      "spam".toList], .del (some ['2'])]
    (spamRun plainRegcomp true (spamLoaded plainRegcomp file) cmds).filters =
      spamReload plainRegcomp
        (spamRun plainRegcomp true (spamLoaded plainRegcomp file) cmds).file := by
  intro file cmds
  refine rules_survive_reload plainRegcomp true file cmds ?_ ?_
  · intro c hc
    rcases List.mem_pair.mp hc with rfl | rfl
    · simp only [SpamCommand.FromLine]
      decide
    · trivial
  · have hdel : (SpamCommand.del (some ['2'])).Meets plainRegcomp
        (spamRun plainRegcomp true (spamLoaded plainRegcomp file) (cmds.take 1)) := by
      refine ⟨by decide +kernel, ?_⟩
      decide +kernel
    refine ⟨fun _ f hf _ => ?_, hdel, trivial⟩
    have hparse : parseLine (typedRule "n".toList "zline".toList "2d".toList "go_away".toList
        ["spam".toList]) =
        .ok (some ⟨{.noticeUser}, .zline, 172800, "go away".toList, "spam".toList⟩) := by
      decide +kernel
    obtain rfl := Option.some.inj (Except.ok.inj (hparse.symm.trans hf))
    decide

/-- The second of two rules that differ in their durations is deleted from the list, and the first
one from the file. -/
theorem other_rule_deleted :
    let cmds := [
      SpamCommand.add ["p".toList, "block".toList, "1h".toList, "r".toList, "foo".toList],
      .add ["p".toList, "block".toList, "2h".toList, "r".toList, "foo".toList], .del (some ['2'])]
    let s := spamRun plainRegcomp true (spamLoaded plainRegcomp []) cmds
    s.filters = [⟨{.privmsgUser}, .block, 3600, ['r'], "foo".toList⟩] ∧
      spamReload plainRegcomp s.file = [⟨{.privmsgUser}, .block, 7200, ['r'], "foo".toList⟩] := by
  decide +kernel

end SekurIRCd
