import OperatingSys.Shell.Segments

/-!
# Where the words of a line go

Each round of the `do` loop of `parse_command` stores its paths in the same two fields. A line
that is accepted keeps all its words if and only if no command on it has two redirects of the
same kind.
-/

namespace OperatingSys.Shell

def Token.word? : Token → Option Word
  | .word w => some w
  | _ => none

/-- The words among the tokens. -/
def wordsIn (tokens : List Token) : List Word := tokens.filterMap Token.word?

/-- The words of the segment are the arguments and then the paths, in one order or the other. -/
def Command.Keeps (c : Command) (segment : List Token) : Prop :=
  wordsIn segment = c.args ++ (c.redirectIn.toList ++ c.redirectOut.toList) ∨
    wordsIn segment = c.args ++ (c.redirectOut.toList ++ c.redirectIn.toList)

instance (c : Command) (segment : List Token) : Decidable (c.Keeps segment) :=
  inferInstanceAs (Decidable (_ ∨ _))

/-- Command by command, no word is lost. -/
def KeepsWords (tokens : List Token) (commands : List Command) : Prop :=
  List.Forall₂ (fun segment c => c.Keeps segment) (segments tokens) commands

/-- At most one redirect of each kind. -/
def SingleRedirects (segment : List Token) : Prop :=
  segment.count .leftAngle ≤ 1 ∧ segment.count .rightAngle ≤ 1

instance (segment : List Token) : Decidable (SingleRedirects segment) :=
  inferInstanceAs (Decidable (_ ∧ _))

/-! ### One command -/

theorem wordsIn_append (tokens tokens' : List Token) :
    wordsIn (tokens ++ tokens') = wordsIn tokens ++ wordsIn tokens' := List.filterMap_append

theorem wordsIn_words (words : List Word) : wordsIn (words.map .word) = words := by
  rw [wordsIn, List.filterMap_map]
  exact List.filterMap_some

theorem count_words {t : Token} (notWord : t.type ≠ .word) (words : List Word) :
    (words.map Token.word).count t = 0 := by
  apply List.count_eq_zero.mpr
  intro member
  obtain ⟨w, -, rfl⟩ := List.mem_map.mp member
  exact notWord rfl

/-- What the loop makes of the tokens that it uses: every redirect has a word, the two kinds
alternate, and the paths that were there before stay as they are if there is no redirect. -/
structure Redirects (input output : Option Word) (used : List Token)
    (inPath outPath : Option Word) : Prop where
  words : (wordsIn used).length = used.count .leftAngle + used.count .rightAngle
  left : used.count .leftAngle ≤ used.count .rightAngle + 1
  right : used.count .rightAngle ≤ used.count .leftAngle + 1
  absent : wordsIn used = [] → inPath = input ∧ outPath = output
  single : SingleRedirects used → input = none → output = none →
    wordsIn used = inPath.toList ++ outPath.toList

theorem wordsIn_redirectTokens {angle : Token} (notWord : angle.type ≠ .word)
    (path : Option Word) : wordsIn (redirectTokens angle path) = path.toList := by
  cases angle <;> cases path <;> first
    | rfl
    | exact absurd rfl notWord

theorem count_redirectTokens {angle t : Token} (notWord : t.type ≠ .word) (path : Option Word) :
    (redirectTokens angle path).count t = if angle = t then path.toList.length else 0 := by
  cases path with
  | none => simp [redirectTokens]
  | some p =>
    have other : Token.word p ≠ t := fun same => notWord (by rw [← same]; rfl)
    simp [redirectTokens, List.count_cons, other]

/-- The last round, which does not find both redirects. -/
theorem redirects_last (input output : Option Word) {inPath outPath : Option Word}
    (notBoth : ¬ (inPath.isSome ∧ outPath.isSome)) :
    Redirects input output (redirectTokens .leftAngle inPath ++ redirectTokens .rightAngle outPath)
      (inPath <|> input) (outPath <|> output) := by
  have words : wordsIn (redirectTokens .leftAngle inPath ++ redirectTokens .rightAngle outPath) =
      inPath.toList ++ outPath.toList := by
    rw [wordsIn_append, wordsIn_redirectTokens (by decide), wordsIn_redirectTokens (by decide)]
  have left : (redirectTokens .leftAngle inPath ++ redirectTokens .rightAngle outPath).count
      .leftAngle = inPath.toList.length := by
    rw [List.count_append, count_redirectTokens (by decide), count_redirectTokens (by decide)]
    rfl
  have right : (redirectTokens .leftAngle inPath ++ redirectTokens .rightAngle outPath).count
      .rightAngle = outPath.toList.length := by
    rw [List.count_append, count_redirectTokens (by decide), count_redirectTokens (by decide)]
    exact Nat.zero_add _
  cases inPath <;> cases outPath <;> constructor <;> simp_all

/-- A round that finds both, before the others. -/
theorem Redirects.round {p q : Word} {used : List Token} {inPath outPath : Option Word}
    (later : Redirects (some p) (some q) used inPath outPath) (input output : Option Word) :
    Redirects input output
      (redirectTokens .leftAngle (some p) ++ (redirectTokens .rightAngle (some q) ++ used))
      inPath outPath := by
  have words : wordsIn (redirectTokens .leftAngle (some p) ++
      (redirectTokens .rightAngle (some q) ++ used)) = p :: q :: wordsIn used := rfl
  have left : (redirectTokens .leftAngle (some p) ++
      (redirectTokens .rightAngle (some q) ++ used)).count .leftAngle =
        used.count .leftAngle + 1 := by simp [redirectTokens]
  have right : (redirectTokens .leftAngle (some p) ++
      (redirectTokens .rightAngle (some q) ++ used)).count .rightAngle =
        used.count .rightAngle + 1 := by simp [redirectTokens]
  have count := later.words
  have bound := later.left
  have bound' := later.right
  refine ⟨?_, by omega, by omega, fun none_ => by simp [words] at none_, fun single _ _ => ?_⟩
  · rw [words, left, right, List.length_cons, List.length_cons, count]
    omega
  · obtain ⟨one, one'⟩ := single
    have none_ : wordsIn used = [] := List.length_eq_zero_iff.mp (by omega)
    obtain ⟨rfl, rfl⟩ := later.absent none_
    rw [words, none_]
    rfl

/-- The two fields hold all words if and only if there are not more than two of them. -/
theorem Redirects.kept_iff {used : List Token} {inPath outPath : Option Word}
    (redirects : Redirects none none used inPath outPath) :
    wordsIn used = inPath.toList ++ outPath.toList ∨
        wordsIn used = outPath.toList ++ inPath.toList ↔ SingleRedirects used := by
  have fields : ∀ path : Option Word, path.toList.length ≤ 1 := by
    intro path
    cases path <;> simp
  have count := redirects.words
  have left := redirects.left
  have right := redirects.right
  constructor
  · intro kept
    have length : (wordsIn used).length = inPath.toList.length + outPath.toList.length := by
      rcases kept with eq | eq
      · rw [eq, List.length_append]
      · rw [eq, List.length_append, Nat.add_comm]
    have one := fields inPath
    have one' := fields outPath
    exact ⟨by omega, by omega⟩
  · exact fun single => Or.inl (redirects.single single rfl rfl)

theorem readRedirects_redirects {tokens rest : List Token} {input output inPath outPath : Option Word}
    (read : readRedirects input output tokens = some (inPath, outPath, rest)) :
    ∃ used, tokens = used ++ rest ∧ Redirects input output used inPath outPath := by
  fun_induction readRedirects input output tokens with
  | case1 => simp at read
  | case2 => simp at read
  | case3 input output tokens inPath' rest₁ first outPath' rest₂ second both ih =>
    obtain ⟨p, rfl⟩ := Option.isSome_iff_exists.mp both.1
    obtain ⟨q, rfl⟩ := Option.isSome_iff_exists.mp both.2
    obtain ⟨used, rfl, later⟩ := ih read
    refine ⟨_, ?_, later.round input output⟩
    rw [readRedirect_tokens (by decide) first, readRedirect_tokens (by decide) second]
    simp only [List.append_assoc]
  | case4 input output tokens inPath' rest₁ first outPath' rest₂ second notBoth =>
    simp only [Option.some.injEq, Prod.mk.injEq] at read
    obtain ⟨rfl, rfl, rfl⟩ := read
    refine ⟨_, ?_, redirects_last input output notBoth⟩
    rw [readRedirect_tokens (by decide) first, readRedirect_tokens (by decide) second,
      List.append_assoc]

/-- What is left of a segment when its command has been read: nothing, or the ampersand of a
background line. -/
def Closing (rest : List Token) : Prop := rest = [] ∨ rest = [.ampersand]

theorem Closing.words {rest : List Token} (closing : Closing rest) : wordsIn rest = [] := by
  rcases closing with rfl | rfl <;> rfl

theorem Closing.count {rest : List Token} (closing : Closing rest) {t : Token}
    (other : t ≠ .ampersand) : rest.count t = 0 := by
  rcases closing with rfl | rfl
  · rfl
  · simp [other.symm]

/-- A command that has been read from its whole segment keeps the words of the segment exactly
if no redirect is there twice. -/
theorem readCommand_keeps_iff {segment rest : List Token} {c : Command}
    (read : readCommand segment = some (c, rest)) (closing : Closing rest) :
    c.Keeps segment ↔ SingleRedirects segment := by
  unfold readCommand at read
  rcases readArgs_cases segment with ⟨words, after, rfl, -, -, args⟩ | ⟨_, _, _, -, -, -, args⟩
  · simp only [args] at read
    -- an empty command has no redirects, and keeps the nothing that it has
    by_cases empty : words = []
    · simp only [if_pos empty, Option.some.injEq, Prod.mk.injEq] at read
      obtain ⟨rfl, rfl⟩ := read
      refine iff_of_true (Or.inl ?_) ?_
      · rw [empty, wordsIn_append, closing.words]
        rfl
      · rw [empty]
        exact ⟨by simp [closing.count], by simp [closing.count]⟩
    · rw [if_neg empty] at read
      cases redirects : readRedirects none none after with
      | none => simp [redirects] at read
      | some r =>
        obtain ⟨inPath, outPath, rest'⟩ := r
        simp only [redirects, Option.some.injEq, Prod.mk.injEq] at read
        obtain ⟨rfl, rfl⟩ := read
        obtain ⟨used, rfl, found⟩ := readRedirects_redirects redirects
        have words' : wordsIn (words.map .word ++ (used ++ rest')) = words ++ wordsIn used := by
          rw [wordsIn_append, wordsIn_words, wordsIn_append, closing.words, List.append_nil]
        -- all redirects of the segment are among the tokens used, as the words come first
        have count : ∀ t : Token, t.type ≠ .word → t ≠ .ampersand →
            (words.map Token.word ++ (used ++ rest')).count t = used.count t := by
          intro t notWord other
          rw [List.count_append, count_words notWord, List.count_append, closing.count other]
          omega
        rw [Command.Keeps, SingleRedirects, words', count .leftAngle (by decide) (by decide),
          count .rightAngle (by decide) (by decide), List.append_cancel_left_eq, List.append_cancel_left_eq]
        exact found.kept_iff
  · simp [args] at read

/-! ### A line -/

/-- The segments of an accepted line are the commands that have been read. -/
theorem readPipes_segments {tokens rest rest' : List Token} {c : Command} {commands : List Command}
    (first : readCommand tokens = some (c, rest)) (others : readPipes c rest = some (commands, rest'))
    (closing : Closing rest') :
    List.Forall₂ (fun segment c => ∃ r, readCommand segment = some (c, r) ∧ Closing r)
      (segments tokens) (c :: commands) := by
  fun_induction readPipes c rest generalizing tokens commands with
  | case1 => simp at others
  | case2 => simp at others
  | case3 previous more nonempty c' rest₂ next ih =>
    obtain ⟨⟨commands', rest₃⟩, readRest, eq⟩ := Option.map_eq_some_iff.mp others
    rw [Prod.mk.injEq] at eq
    obtain ⟨rfl, rfl⟩ := eq
    obtain ⟨segment, noPipe, ⟨rfl, -⟩ | ⟨more', rfl, split⟩⟩ := segments_cases tokens
    · exact absurd (List.mem_cons_self) (readCommand_noPipe noPipe first)
    · obtain ⟨r, read, eq⟩ := readCommand_segment first
      obtain ⟨rfl, rfl⟩ := pipe_first (readCommand_noPipe noPipe read) eq
      rw [split]
      exact .cons ⟨[], read, Or.inl rfl⟩ (ih next readRest)
  | case4 previous rest notPipe =>
    simp only [Option.some.injEq, Prod.mk.injEq] at others
    obtain ⟨rfl, rfl⟩ := others
    obtain ⟨segment, noPipe, ⟨rfl, split⟩ | ⟨more', rfl, split⟩⟩ := segments_cases tokens
    · rw [split]
      exact .cons ⟨rest, first, closing⟩ .nil
    · obtain ⟨r, -, rfl⟩ := readCommand_segment first
      rcases closing with eq | eq <;> simp [List.append_eq_singleton_iff] at eq

theorem readLine_segments {tokens : List Token} {l : CommandLine} (read : readLine tokens = some l) :
    List.Forall₂ (fun segment c => ∃ r, readCommand segment = some (c, r) ∧ Closing r)
      (segments tokens) l.commands := by
  unfold readLine at read
  split at read
  · simp at read
  next c rest first =>
    split at read
    · simp at read
    next commands rest' others =>
      obtain ⟨background, ends, rfl⟩ := Option.map_eq_some_iff.mp read
      apply readPipes_segments first others
      rw [readEnd_eq_some.mp ends]
      cases background
      · exact Or.inl rfl
      · exact Or.inr rfl

/-- For every line that is accepted, whatever the memory holds: all words of the line are
kept, command by command, if and only if no command on it has two redirects of the same kind. -/
theorem keepsWords_iff {garbage : Nat → Nat → Option Word} {line : List Char}
    (noNul : '\x00' ∉ line) (short : line.length ≤ maxLineLength) {pipeline : Pipeline}
    (accepted : pipelineBuild garbage line = some (some pipeline)) :
    KeepsWords (tokensOf line) pipeline.view.commands ↔
      ∀ segment ∈ segments (tokensOf line), SingleRedirects segment := by
  have outcome := pipelineBuild_tokensOf garbage noNul short
  rw [accepted, Option.map_some, Option.map_some, Option.some.injEq] at outcome
  have commands := readLine_segments outcome.symm
  unfold KeepsWords
  generalize segments (tokensOf line) = parts at commands ⊢
  generalize pipeline.view.commands = built at commands ⊢
  induction commands with
  | nil => simp
  | cons read _ ih =>
    obtain ⟨r, read, closing⟩ := read
    rw [List.forall₂_cons, List.forall_mem_cons]
    exact and_congr (readCommand_keeps_iff read closing) ih

/-- The line `a <i >o | b c &`. -/
theorem keepsWords_iff_two_commands :
    ∃ pipeline, pipelineBuild (fun _ _ => some ['?'])
        ['a', ' ', '<', 'i', ' ', '>', 'o', '|', 'b', ' ', 'c', '&', '\n'] = some (some pipeline) ∧
      KeepsWords (tokensOf ['a', ' ', '<', 'i', ' ', '>', 'o', '|', 'b', ' ', 'c', '&', '\n'])
        pipeline.view.commands := by
  obtain ⟨pipeline, accepted, -⟩ := pipelineBuild_of_view
    (show (pipelineBuild (fun _ _ => some ['?'])
      ['a', ' ', '<', 'i', ' ', '>', 'o', '|', 'b', ' ', 'c', '&', '\n']).map
      (Option.map Pipeline.view) = some (some ⟨[⟨[['a']], some ['i'], some ['o']⟩,
        ⟨[['b'], ['c']], none, none⟩], true⟩) by decide)
  exact ⟨pipeline, accepted,
    (keepsWords_iff (by decide) (by decide) accepted).mpr (by decide)⟩

/-- The line `a <b >c <d` is accepted, and `b` is lost. -/
theorem first_path_overwritten :
    ∃ pipeline, pipelineBuild (fun _ _ => none)
        ['a', ' ', '<', 'b', ' ', '>', 'c', ' ', '<', 'd', '\n'] = some (some pipeline) ∧
      pipeline.view.commands = [⟨[['a']], some ['d'], some ['c']⟩] ∧
      ¬ KeepsWords (tokensOf ['a', ' ', '<', 'b', ' ', '>', 'c', ' ', '<', 'd', '\n'])
        pipeline.view.commands := by
  obtain ⟨pipeline, accepted, view⟩ := pipelineBuild_of_view
    (show (pipelineBuild (fun _ _ => none)
      ['a', ' ', '<', 'b', ' ', '>', 'c', ' ', '<', 'd', '\n']).map (Option.map Pipeline.view) =
      some (some ⟨[⟨[['a']], some ['d'], some ['c']⟩], false⟩) by decide)
  refine ⟨pipeline, accepted, by rw [view], ?_⟩
  rw [view, KeepsWords]
  decide

end OperatingSys.Shell
