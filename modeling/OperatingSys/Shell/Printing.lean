import OperatingSys.Shell.Tokens

/-!
# Building what was printed

A command line as a value, the tokens it is printed as, and what the parsing functions make
of a line on which these tokens are written.
-/

namespace OperatingSys.Shell

structure Command where
  args : List Word
  redirectIn : Option Word
  redirectOut : Option Word
  deriving DecidableEq

structure CommandLine where
  commands : List Command
  background : Bool
  deriving DecidableEq

/-! ### Printing -/

def redirectTokens (angle : Token) : Option Word → List Token
  | none => []
  | some path => [angle, .word path]

/-- The arguments, then the redirects. -/
def Command.tokens (c : Command) : List Token :=
  c.args.map .word ++
    (redirectTokens .leftAngle c.redirectIn ++ redirectTokens .rightAngle c.redirectOut)

/-- A pipe and a command for each of the further commands. -/
def pipedTokens (commands : List Command) : List Token :=
  commands.flatMap fun c => .pipe :: c.tokens

/-- The commands joined by pipes, then `&` for a background line. -/
def CommandLine.tokens (l : CommandLine) : List Token :=
  (match l.commands with
    | [] => []
    | c :: rest => c.tokens ++ pipedTokens rest) ++
  if l.background then [.ampersand] else []

/-- The line prints the commands, with any whitespace around the tokens. -/
def Prints (l : CommandLine) (line : List Char) : Prop := Written l.tokens line

/-! ### What the structures hold -/

/-- The words before the first NULL. -/
def wordsUntilNull : List (Option Word) → List Word
  | [] => []
  | none :: _ => []
  | some w :: rest => w :: wordsUntilNull rest

def PipelineCommand.view (command : PipelineCommand) : Command where
  args := wordsUntilNull ((List.range maxArgvLength).map command.commandArgs)
  redirectIn := command.redirectInPath
  redirectOut := command.redirectOutPath

def Pipeline.view (pipeline : Pipeline) : CommandLine where
  commands := pipeline.commands.map PipelineCommand.view
  background := pipeline.isBackground

/-- The entries once `words` and a NULL have been stored from entry `k` on. -/
def storeArgs (entries : Nat → Option Word) (k : Nat) : List Word → Nat → Option Word
  | [] => Function.update entries k none
  | w :: rest => storeArgs (Function.update entries k (some w)) (k + 1) rest

/-- The entries once `words` alone have been stored. -/
def fillArgs (entries : Nat → Option Word) (k : Nat) : List Word → Nat → Option Word
  | [] => entries
  | w :: rest => fillArgs (Function.update entries k (some w)) (k + 1) rest

theorem storeArgs_below {entries : Nat → Option Word} {k i : Nat} (below : i < k)
    (words : List Word) : storeArgs entries k words i = entries i := by
  induction words generalizing entries k with
  | nil => exact Function.update_of_ne (by omega) _ _
  | cons w rest ih =>
    rw [storeArgs, ih (by omega)]
    exact Function.update_of_ne (by omega) _ _

theorem wordsUntilNull_storeArgs (entries : Nat → Option Word) (words : List Word) {k n : Nat}
    (room : words.length < n) :
    wordsUntilNull ((List.range' k n).map (storeArgs entries k words)) = words := by
  induction words generalizing entries k n with
  | nil =>
    obtain ⟨n, rfl⟩ : ∃ m, n = m + 1 := ⟨n - 1, by simp at room; omega⟩
    simp [List.range'_succ, storeArgs, wordsUntilNull]
  | cons w rest ih =>
    obtain ⟨n, rfl⟩ : ∃ m, n = m + 1 := ⟨n - 1, by simp at room; omega⟩
    rw [List.range'_succ, List.map_cons, storeArgs, storeArgs_below (Nat.lt_succ_self k),
      Function.update_self, wordsUntilNull, ih _ (by simpa using room)]

/-- A command whose arguments are stored from the front. -/
theorem view_storeArgs (command : PipelineCommand) {words : List Word}
    (room : words.length < maxArgvLength) :
    { command with commandArgs := storeArgs command.commandArgs 0 words }.view =
      ⟨words, command.redirectInPath, command.redirectOutPath⟩ := by
  rw [PipelineCommand.view, List.range_eq_range', wordsUntilNull_storeArgs _ _ room]

/-! ### Arguments -/

/-- The next token is not of this type. -/
def Avoids (tokens : List Token) (type : TokenType) : Prop := ∀ t ∈ tokens.head?, t.type ≠ type

/-- `next_token` by itself moves no further than to the next token. -/
theorem nextToken_written {tokens : List Token} {line : List Char} (valid : Valid tokens)
    (written : Written tokens line) :
    ∃ token length type, nextToken line = (token, length, type) ∧ Written tokens token := by
  cases tokens with
  | nil =>
    exact ⟨[], 0, .none, nextToken_nil written, blank_nil⟩
  | cons t rest =>
    obtain ⟨tail, next, again, -⟩ := nextToken_cons valid written
    exact ⟨_, _, _, next, again⟩

/-- `next_token` before what is not a token of a given type. -/
theorem nextToken_avoids {tokens : List Token} {type : TokenType} {line : List Char}
    (avoids : Avoids tokens type) (notNone : type ≠ .none) (valid : Valid tokens)
    (written : Written tokens line) :
    ∃ token length type', nextToken line = (token, length, type') ∧ type' ≠ type ∧
      Written tokens token := by
  cases tokens with
  | nil =>
    exact ⟨[], 0, .none, nextToken_nil written, notNone.symm, blank_nil⟩
  | cons t rest =>
    obtain ⟨tail, next, again, -⟩ := nextToken_cons valid written
    exact ⟨_, _, _, next, avoids t (by simp), again⟩

theorem strndup_word {w : Word} (word : IsWord w) (tail : List Char) :
    strndup (w ++ tail) w.length = w := by
  rw [strndup, List.take_left, List.takeWhile_eq_self_iff]
  intro c member
  simpa using (isWordChar_iff.mp (word.2 c member)).2.2

theorem setArg_of_lt {command : PipelineCommand} {i : Nat} (inside : i < maxArgvLength)
    (arg : Option Word) : command.setArg i arg =
      some { command with commandArgs := Function.update command.commandArgs i arg } :=
  if_pos inside

theorem parseArgsLoop_written {rest : List Token} (stops : Avoids rest .word) (words : List Word) :
    ∀ (rounds k : Nat) (token : List Char) (command : PipelineCommand), words.length < rounds →
      Valid (words.map .word ++ rest) → (∀ w ∈ words, w.length ≤ maxWordLength) →
      k + words.length < maxArgvLength → Written (words.map .word ++ rest) token →
      ∃ token', parseArgsLoop rounds token command k =
          some (((k + words.length : Nat) : Int), token',
            { command with commandArgs := storeArgs command.commandArgs k words }) ∧
        Written rest token' := by
  induction words with
  -- the token after the words is not a word, and ends the loop with a null pointer in the array
  | nil =>
    intro rounds k token command enough valid short room written
    obtain ⟨rounds, rfl⟩ : ∃ m, rounds = m + 1 := ⟨rounds - 1, by simp at enough; omega⟩
    obtain ⟨token', length, type, next, other, written'⟩ :=
      nextToken_avoids stops (by decide) valid written
    refine ⟨token', ?_, written'⟩
    simp only [parseArgsLoop, next, other, if_false, setArg_of_lt (show k < maxArgvLength from room)]
    rfl
  | cons w words ih =>
    intro rounds k token command enough valid short room written
    obtain ⟨rounds, rfl⟩ : ∃ m, rounds = m + 1 := ⟨rounds - 1, by simp at enough; omega⟩
    rw [List.length_cons] at enough room
    obtain ⟨tail, next, -, written'⟩ := nextToken_cons valid written
    obtain ⟨token', loop, written''⟩ := ih rounds (k + 1) tail
      { command with commandArgs := Function.update command.commandArgs k (some w) }
      (by omega) valid.tail (fun w' member => short w' (List.mem_cons_of_mem _ member)) (by omega)
      written'
    have fits : ¬ w.length > maxWordLength := Nat.not_lt.mpr (short w (by simp))
    refine ⟨token', ?_, written''⟩
    simp only [parseArgsLoop, next, Token.text, Token.type, if_true, fits, if_false,
      strndup_word (valid w (by simp)), setArg_of_lt (show k < maxArgvLength by omega),
      List.drop_left, loop, storeArgs]
    rw [show k + 1 + words.length = k + (w :: words).length by simp; omega]

/-! ### Redirects -/

section Redirect

variable (angle : Token) (keep : PipelineCommand → Word → PipelineCommand) {token : List Char}
  {tokens : List Token}

theorem parseRedirect_absent (command : PipelineCommand) (notNone : angle.type ≠ .none)
    (avoids : Avoids tokens angle.type) (valid : Valid tokens) (written : Written tokens token) :
    ∃ token', parseRedirect angle.type keep token command = (0, token', command) ∧
      Written tokens token' := by
  obtain ⟨token', length, type, next, other, written'⟩ :=
    nextToken_avoids avoids notNone valid written
  exact ⟨token', by simp only [parseRedirect, next, ne_eq, other, not_false_eq_true, if_true],
    written'⟩

theorem parseRedirect_present {path : Word} (command : PipelineCommand)
    (valid : Valid (angle :: .word path :: tokens)) (short : path.length ≤ maxWordLength)
    (written : Written (angle :: .word path :: tokens) token) :
    ∃ token', parseRedirect angle.type keep token command = (1, token', keep command path) ∧
      Written tokens token' := by
  obtain ⟨tail, next, -, written'⟩ := nextToken_cons valid written
  obtain ⟨tail', next', -, written''⟩ := nextToken_cons valid.tail written'
  have fits : ¬ path.length > maxWordLength := Nat.not_lt.mpr short
  refine ⟨tail', ?_, written''⟩
  simp only [parseRedirect, next, next', List.drop_left, Token.text, Token.type, ne_eq,
    not_true_eq_false, if_false, fits, strndup_word (valid.tail path (by simp))]

/-- A redirect that may be there or not. -/
theorem parseRedirect_optional (path : Option Word) (command : PipelineCommand)
    (notNone : angle.type ≠ .none) (avoids : Avoids tokens angle.type)
    (valid : Valid (redirectTokens angle path ++ tokens))
    (short : ∀ p ∈ path, p.length ≤ maxWordLength)
    (written : Written (redirectTokens angle path ++ tokens) token) :
    ∃ token', parseRedirect angle.type keep token command =
        (if path.isSome then 1 else 0, token', path.elim command (keep command)) ∧
      Written tokens token' := by
  cases path with
  | none => exact parseRedirect_absent angle keep command notNone avoids valid written
  | some p => exact parseRedirect_present angle keep command valid (short p rfl) written

end Redirect

theorem avoids_redirectTokens {angle : Token} {type : TokenType} {rest : List Token}
    (other : angle.type ≠ type) (avoids : Avoids rest type) (path : Option Word) :
    Avoids (redirectTokens angle path ++ rest) type := by
  cases path with
  | none => exact avoids
  | some p =>
    intro t head
    obtain rfl : angle = t := by simpa [redirectTokens] using head
    exact other

theorem redirectLoop_written (rounds : Nat) (command : PipelineCommand) {rest : List Token}
    {token : List Char} {inPath outPath : Option Word} (fresh : command.redirectInPath = none)
    (fresh' : command.redirectOutPath = none) (avoidsIn : Avoids rest .leftAngle)
    (avoidsOut : Avoids rest .rightAngle) (enough : 0 < rounds)
    (enough' : inPath.isSome → outPath.isSome → 2 ≤ rounds)
    (valid : Valid (redirectTokens .leftAngle inPath ++
      (redirectTokens .rightAngle outPath ++ rest)))
    (short : ∀ p ∈ inPath, p.length ≤ maxWordLength)
    (short' : ∀ p ∈ outPath, p.length ≤ maxWordLength)
    (written : Written (redirectTokens .leftAngle inPath ++
      (redirectTokens .rightAngle outPath ++ rest)) token) :
    ∃ inRet outRet token', redirectLoop rounds token command =
        some (inRet, outRet, token',
          { command with redirectInPath := inPath, redirectOutPath := outPath }) ∧
      ¬ (inRet = -1 ∨ outRet = -1) ∧ Written rest token' := by
  obtain ⟨rounds, rfl⟩ : ∃ m, rounds = m + 1 := ⟨rounds - 1, by omega⟩
  have valid' : Valid (redirectTokens .rightAngle outPath ++ rest) :=
    fun w member => valid w (List.mem_append_right _ member)
  have valid'' : Valid rest := fun w member => valid' w (List.mem_append_right _ member)
  obtain ⟨token₁, first, written₁⟩ := parseRedirect_optional .leftAngle
    (fun command path => { command with redirectInPath := some path }) inPath command
    (by decide) (avoids_redirectTokens (by decide) avoidsIn outPath) valid short written
  obtain ⟨token₂, second, written₂⟩ := parseRedirect_optional .rightAngle
    (fun command path => { command with redirectOutPath := some path }) outPath
    (inPath.elim command fun path => { command with redirectInPath := some path })
    (by decide) avoidsOut valid' short' written₁
  -- what the two calls store, whichever of the redirects are there
  have stored : (outPath.elim
      (inPath.elim command fun path => { command with redirectInPath := some path })
      fun path => { (inPath.elim command fun path => { command with redirectInPath := some path })
        with redirectOutPath := some path }) =
      { command with redirectInPath := inPath, redirectOutPath := outPath } := by
    obtain ⟨args, oldIn, oldOut⟩ := command
    obtain rfl : oldIn = none := fresh
    obtain rfl : oldOut = none := fresh'
    cases inPath <;> cases outPath <;> rfl
  rw [stored] at second
  simp only [redirectLoop, parseRedirectIn, parseRedirectOut]
  change parseRedirect .leftAngle _ _ _ = _ at first
  change parseRedirect .rightAngle _ _ _ = _ at second
  simp only [first, second]
  by_cases both : inPath.isSome ∧ outPath.isSome
  · -- both redirects are there, and the loop looks for two more
    have twice := enough' both.1 both.2
    obtain ⟨rounds, rfl⟩ : ∃ m, rounds = m + 1 := ⟨rounds - 1, by omega⟩
    obtain ⟨token₃, third, written₃⟩ := parseRedirect_absent .leftAngle
      (fun command path => { command with redirectInPath := some path })
      { command with redirectInPath := inPath, redirectOutPath := outPath } (by decide) avoidsIn
      valid'' written₂
    obtain ⟨token₄, fourth, written₄⟩ := parseRedirect_absent .rightAngle
      (fun command path => { command with redirectOutPath := some path })
      { command with redirectInPath := inPath, redirectOutPath := outPath } (by decide) avoidsOut
      valid'' written₃
    change parseRedirect .leftAngle _ _ _ = _ at third
    change parseRedirect .rightAngle _ _ _ = _ at fourth
    simp only [both, and_self, if_true, redirectLoop, parseRedirectIn, parseRedirectOut, third,
      fourth]
    exact ⟨0, 0, token₄, by simp, by decide, written₄⟩
  · refine ⟨_, _, token₂, if_neg fun positive => both ?_, ?_, written₂⟩
    · obtain ⟨positive, positive'⟩ := positive
      constructor
      · by_contra absent
        simp [absent] at positive
      · by_contra absent
        simp [absent] at positive'
    · cases inPath <;> cases outPath <;> simp

/-! ### Commands -/

/-- Words that `parse_args` and the redirects accept. -/
def ShortWord (w : Word) : Prop := IsWord w ∧ w.length ≤ maxWordLength

instance (w : Word) : Decidable (ShortWord w) := inferInstanceAs (Decidable (_ ∧ _))

structure Command.Worded (c : Command) : Prop where
  args : ∀ w ∈ c.args, ShortWord w
  redirectIn : ∀ p ∈ c.redirectIn, ShortWord p
  redirectOut : ∀ p ∈ c.redirectOut, ShortWord p

instance (c : Command) : Decidable c.Worded :=
  decidable_of_iff ((∀ w ∈ c.args, ShortWord w) ∧ (∀ p ∈ c.redirectIn, ShortWord p) ∧
    ∀ p ∈ c.redirectOut, ShortWord p) ⟨fun ⟨a, i, o⟩ => ⟨a, i, o⟩, fun ⟨a, i, o⟩ => ⟨a, i, o⟩⟩

/-- A command that `parse_command` can return. -/
structure Command.Sound (c : Command) : Prop extends c.Worded where
  room : c.args.length < maxArgvLength
  bare : c.args = [] → c.redirectIn = none ∧ c.redirectOut = none

theorem Command.Worded.valid {c : Command} (worded : c.Worded) {rest : List Token}
    (valid : Valid rest) : Valid (c.tokens ++ rest) := by
  have redirect : ∀ {angle path} {w : Word}, angle.type ≠ .word → (∀ p ∈ path, ShortWord p) →
      .word w ∈ redirectTokens angle path → IsWord w := by
    intro angle path w notWord short member
    cases path with
    | none => exact absurd member List.not_mem_nil
    | some p =>
      rcases List.mem_cons.mp member with rfl | single
      · exact absurd rfl notWord
      · obtain rfl : w = p := by simpa using single
        exact (short w rfl).1
  intro w member
  simp only [Command.tokens, List.mem_append, List.mem_map] at member
  rcases member with (⟨w', inside, eq⟩ | left | right) | inRest
  · obtain rfl : w' = w := by simpa using eq
    exact (worded.args w' inside).1
  · exact redirect (by decide) worded.redirectIn left
  · exact redirect (by decide) worded.redirectOut right
  · exact valid w inRest

/-- A line has at least as many characters as tokens. -/
theorem Written.length_le {tokens : List Token} {line : List Char} (valid : Valid tokens)
    (written : Written tokens line) : tokens.length ≤ line.length := by
  induction tokens generalizing line with
  | nil => exact Nat.zero_le _
  | cons token rest ih =>
    obtain ⟨gap, tail, -, rfl, -, writtenRest⟩ := written
    obtain ⟨c, more, text, -⟩ := token.text_ne_nil valid.head
    have := ih valid.tail writtenRest
    simp only [text, List.length_append, List.length_cons]
    omega

/-- What may follow a command. -/
structure Ends (rest : List Token) : Prop where
  word : Avoids rest .word
  left : Avoids rest .leftAngle
  right : Avoids rest .rightAngle

/-- What `parse_command` returns for a command is no error. -/
theorem Command.parsed_ne (c : Command) : (if c.args = [] then (0 : Int) else 1) ≠ -1 := by
  split <;> decide

theorem parseCommand_written {c : Command} (sound : c.Sound) {rest : List Token}
    {token : List Char} (garbage : Nat → Option Word) (ends : Ends rest) (validRest : Valid rest)
    (written : Written (c.tokens ++ rest) token) :
    ∃ token' command, parseCommand token (pipelineCommandAlloc garbage) =
        some (if c.args = [] then 0 else 1, token', command) ∧ command.view = c ∧
      Written rest token' := by
  have valid := sound.valid validRest
  simp only [Command.tokens, List.append_assoc] at valid written
  have validRedirects : Valid (redirectTokens .leftAngle c.redirectIn ++
      (redirectTokens .rightAngle c.redirectOut ++ rest)) :=
    fun w member => valid w (List.mem_append_right _ member)
  obtain ⟨start, length, type, next, writtenStart⟩ := nextToken_written valid written
  have enough := writtenStart.length_le valid
  rw [List.length_append, List.length_map] at enough
  have stops : Avoids (redirectTokens .leftAngle c.redirectIn ++
      (redirectTokens .rightAngle c.redirectOut ++ rest)) .word :=
    avoids_redirectTokens (by decide) (avoids_redirectTokens (by decide) ends.word _) _
  obtain ⟨token₁, args, written₁⟩ := parseArgsLoop_written stops c.args (start.length + 1)
    0 start (pipelineCommandAlloc garbage) (by omega) valid (fun w member => (sound.args w member).2)
    (by rw [Nat.zero_add]; exact sound.room) writtenStart
  rw [Nat.zero_add] at args
  -- without words the source does not look for redirects
  by_cases bare : c.args = []
  · obtain ⟨noIn, noOut⟩ := sound.bare bare
    rw [noIn, noOut] at written₁
    refine ⟨token₁, { pipelineCommandAlloc garbage with
      commandArgs := storeArgs (pipelineCommandAlloc garbage).commandArgs 0 c.args }, ?_, ?_,
      written₁⟩
    · simp only [parseCommand, parseArgs, next, args]
      rw [if_pos (by simp [bare]), if_pos bare, bare]
      rfl
    · rw [view_storeArgs _ sound.room]
      obtain ⟨args, redirectIn, redirectOut⟩ := c
      simp only [pipelineCommandAlloc, Command.mk.injEq, true_and]
      exact ⟨noIn.symm, noOut.symm⟩
  · have length₁ := written₁.length_le validRedirects
    obtain ⟨inRet, outRet, token₂, loop, fine, written₂⟩ := redirectLoop_written
      (token₁.length + 1) { pipelineCommandAlloc garbage with
        commandArgs := storeArgs (pipelineCommandAlloc garbage).commandArgs 0 c.args }
      rfl rfl ends.left ends.right (Nat.succ_pos _)
      (fun isIn isOut => by
        obtain ⟨p, eq⟩ := Option.isSome_iff_exists.mp isIn
        simp only [eq, redirectTokens, List.length_append, List.length_cons] at length₁
        omega)
      validRedirects (fun p member => (sound.redirectIn p member).2)
      (fun p member => (sound.redirectOut p member).2) written₁
    have some_ : ¬ ((c.args.length : Int) < 1) := by
      have := List.length_pos_iff.mpr bare
      omega
    refine ⟨token₂, { pipelineCommandAlloc garbage with
      commandArgs := storeArgs (pipelineCommandAlloc garbage).commandArgs 0 c.args
      redirectInPath := c.redirectIn
      redirectOutPath := c.redirectOut }, ?_, ?_, written₂⟩
    · simp only [parseCommand, parseArgs, next, args, some_, if_false, loop, fine, bare]
    · exact view_storeArgs { pipelineCommandAlloc garbage with
        redirectInPath := c.redirectIn, redirectOutPath := c.redirectOut } sound.room

/-! ### Pipelines -/

/-- A pipe ends a command. -/
theorem ends_pipe (rest : List Token) : Ends (.pipe :: rest) := by
  have head : ∀ t ∈ (Token.pipe :: rest).head?, t = .pipe := fun t first => by
    simpa [eq_comm] using first
  exact ⟨fun t first => head t first ▸ by decide, fun t first => head t first ▸ by decide,
    fun t first => head t first ▸ by decide⟩

theorem ends_pipedTokens {tail : List Token} (ends : Ends tail) (commands : List Command) :
    Ends (pipedTokens commands ++ tail) := by
  cases commands with
  | nil => exact ends
  | cons c rest => exact ends_pipe _

theorem valid_pipedTokens {tail : List Token} (valid : Valid tail) {commands : List Command}
    (worded : ∀ c ∈ commands, c.Worded) : Valid (pipedTokens commands ++ tail) := by
  induction commands with
  | nil => exact valid
  | cons c rest ih =>
    intro w member
    have validRest := ih fun c' inside => worded c' (List.mem_cons_of_mem _ inside)
    refine (worded c (by simp)).valid validRest w ?_
    simpa [pipedTokens, or_assoc] using member

theorem length_pipedTokens (commands : List Command) :
    commands.length ≤ (pipedTokens commands).length := by
  induction commands with
  | nil => exact Nat.le_refl 0
  | cons c rest ih =>
    simp only [pipedTokens, List.flatMap_cons, List.length_append, List.length_cons] at ih ⊢
    omega

/-- An optional `&` at the end of the line. -/
theorem parseBackground_written (background : Bool) {token : List Char}
    (written : Written (if background then [.ampersand] else []) token) :
    ∃ ret token', parseBackground token false = (ret, token', background) ∧ ret ≠ -1 ∧
      Written [] token' := by
  cases background with
  | false =>
    refine ⟨0, [], ?_, by decide, blank_nil⟩
    simp only [parseBackground, nextToken_nil written]
    rfl
  | true =>
    have valid : Valid [.ampersand] := fun w member => by simp at member
    obtain ⟨tail, next, -, written'⟩ := nextToken_cons valid written
    refine ⟨1, tail, ?_, by decide, written'⟩
    simp only [parseBackground, next, Token.text, Token.type, ne_eq, not_true_eq_false, if_false,
      List.drop_left]

/-- All commands but the last have words, and so have all but the last of what remains. -/
theorem leading_tail {c : Command} {rest : List Command}
    (leading : ∀ c' ∈ (c :: rest).dropLast, c'.args ≠ []) :
    ∀ c' ∈ rest.dropLast, c'.args ≠ [] := by
  intro c' inside
  apply leading
  cases rest with
  | nil => exact absurd inside List.not_mem_nil
  | cons _ _ => exact List.mem_cons_of_mem _ inside

/-- `parse_command` returns 1 for a command that another one follows. -/
theorem leading_head {c : Command} {rest : List Command}
    (leading : ∀ c' ∈ (c :: rest).dropLast, c'.args ≠ []) (more : rest ≠ []) :
    (if c.args = [] then (0 : Int) else 1) = 1 := by
  obtain ⟨c', rest', rfl⟩ := List.exists_cons_of_ne_nil more
  exact if_neg (leading c (by simp))


/-- The rounds of the loop of `parse_pipes` build the further commands. -/
theorem pipesLoop_written {tail : List Token} (garbage : Nat → Nat → Option Word) (ends : Ends tail)
    (avoids : Avoids tail .pipe) (validTail : Valid tail) (commands : List Command) :
    ∀ (rounds : Nat) (before : List PipelineCommand) {token : List Char} {lastCmdParse : Int},
      commands.length < rounds → (∀ c ∈ commands, c.Sound) →
      (∀ c ∈ commands.dropLast, c.args ≠ []) → (commands ≠ [] → lastCmdParse = 1) →
      before ≠ [] → Written (pipedTokens commands ++ tail) token →
      ∃ pipeCount token' built, pipesLoop garbage rounds token before lastCmdParse =
          some (pipeCount, token', before ++ built) ∧ pipeCount ≠ -1 ∧
        built.map PipelineCommand.view = commands ∧ Written tail token' := by
  induction commands with
  -- no pipe follows: the loop ends and returns the number of pipes
  | nil =>
    intro rounds before token lastCmdParse enough _ _ _ nonempty written
    obtain ⟨rounds, rfl⟩ : ∃ m, rounds = m + 1 := ⟨rounds - 1, by simp at enough; omega⟩
    obtain ⟨token', length, type, next, other, written'⟩ :=
      nextToken_avoids avoids (by decide) validTail written
    have positive := List.length_pos_iff.mpr nonempty
    refine ⟨(before.length : Int) - 1, token', [], ?_, by omega, rfl, written'⟩
    simp only [pipesLoop, next, other, if_false, List.append_nil]
  | cons c rest ih =>
    intro rounds before token lastCmdParse enough sound leading one nonempty written
    obtain ⟨rounds, rfl⟩ : ∃ m, rounds = m + 1 := ⟨rounds - 1, by simp at enough; omega⟩
    have soundRest : ∀ c' ∈ rest, c'.Sound := fun c' inside => sound c' (List.mem_cons_of_mem _ inside)
    have validRest := valid_pipedTokens validTail fun c' inside => (soundRest c' inside).toWorded
    have split : pipedTokens (c :: rest) ++ tail = .pipe :: (c.tokens ++ (pipedTokens rest ++ tail)) := by
      simp [pipedTokens]
    rw [split] at written
    have valid : Valid (.pipe :: (c.tokens ++ (pipedTokens rest ++ tail))) := by
      rw [← split]
      exact valid_pipedTokens validTail fun c' inside => (sound c' inside).toWorded
    obtain ⟨start, next, -, written₁⟩ := nextToken_cons valid written
    obtain ⟨token₂, command, parsed, view, written₂⟩ := parseCommand_written (sound c (by simp))
      (garbage before.length) (ends_pipedTokens ends rest) validRest written₁
    obtain ⟨pipeCount, token', built, loop, fine, views, written'⟩ := ih rounds
      (before ++ [command]) (by simpa using enough) soundRest
      (leading_tail leading) (leading_head leading) (by simp) written₂
    refine ⟨pipeCount, token', command :: built, ?_, fine, by simp [view, views], written'⟩
    simp only [pipesLoop, next, Token.type, Token.text, if_true, one (by simp), ne_eq,
      not_true_eq_false, if_false, List.drop_left, parsed, c.parsed_ne]
    rw [loop, List.append_assoc]
    rfl

/-- A command line that some line is parsed to. -/
structure CommandLine.Buildable (l : CommandLine) : Prop where
  nonempty : l.commands ≠ []
  sound : ∀ c ∈ l.commands, c.Sound
  leading : ∀ c ∈ l.commands.dropLast, c.args ≠ []

/-- Every way to print such a command line builds it. -/
theorem pipelineBuild_prints (garbage : Nat → Nat → Option Word) {l : CommandLine}
    (buildable : l.Buildable) {line : List Char} (prints : Prints l line) :
    ∃ pipeline, pipelineBuild garbage line = some (some pipeline) ∧ pipeline.view = l := by
  obtain ⟨commands, background⟩ := l
  obtain ⟨nonempty, sound, leading⟩ := buildable
  obtain ⟨c, rest, rfl⟩ := List.exists_cons_of_ne_nil nonempty
  have soundRest : ∀ c' ∈ rest, c'.Sound := fun c' inside => sound c' (List.mem_cons_of_mem _ inside)
  obtain ⟨tail, isTail⟩ : ∃ tail : List Token, tail = if background then [.ampersand] else [] :=
    ⟨_, rfl⟩
  -- all that may follow the commands is an ampersand
  have types : ∀ t ∈ tail, t = .ampersand := by
    intro t member
    rw [isTail] at member
    split at member <;> simp_all
  have validTail : Valid tail := fun w member => absurd (types _ member) Token.noConfusion
  have avoids : ∀ type, type ≠ .ampersand → Avoids tail type := fun type other t head => by
    rw [types t (List.mem_of_mem_head? head)]
    exact fun eq => other eq.symm
  have ends : Ends tail :=
    ⟨avoids _ (by decide), avoids _ (by decide), avoids _ (by decide)⟩
  have validRest := valid_pipedTokens validTail fun c' inside => (soundRest c' inside).toWorded
  have written : Written (c.tokens ++ (pipedTokens rest ++ tail)) line := by
    rw [isTail, ← List.append_assoc]
    exact prints
  obtain ⟨token₁, command, parsed, view, written₁⟩ := parseCommand_written (sound c (by simp))
    (garbage 0) (ends_pipedTokens ends rest) validRest written
  have enough := written₁.length_le validRest
  have fewer := length_pipedTokens rest
  rw [List.length_append] at enough
  obtain ⟨pipeCount, token₂, built, loop, fine, views, written₂⟩ := pipesLoop_written garbage ends
    (avoids _ (by decide)) validTail rest (token₁.length + 1) [command]
    (by omega) soundRest
    (leading_tail leading) (leading_head leading) (by simp) written₁
  obtain ⟨ret, token₃, ampersand, fine', written₃⟩ := parseBackground_written background (isTail ▸ written₂)
  refine ⟨{ commands := command :: built, isBackground := background }, ?_, ?_⟩
  · simp only [pipelineBuild, parsePipes, parsed, c.parsed_ne, if_false, loop, fine, ampersand, fine',
      nextToken_nil written₃, ne_eq, not_true_eq_false]
    rfl
  · simp [Pipeline.view, view, views]

end OperatingSys.Shell
