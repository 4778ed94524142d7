import Mathlib.Data.List.Basic
import OperatingSys.Shell.Reading

/-!
# The documented grammar

Which lines of the grammar that the comments of myshell_parser.c give are accepted, what is
accepted beyond it, and that whitespace makes no difference.
-/

namespace OperatingSys.Shell

/-- What `pipeline_build` makes of a line: `none` is the NULL of a rejected line. -/
theorem pipelineBuild_tokensOf (garbage : Nat → Nat → Option Word) {line : List Char}
    (noNul : '\x00' ∉ line) (short : line.length ≤ maxLineLength) :
    (pipelineBuild garbage line).map (Option.map Pipeline.view) = some (readLine (tokensOf line)) := by
  obtain ⟨written, valid⟩ := written_tokensOf noNul
  exact pipelineBuild_reads garbage valid (written.roomy valid short) written

/-- A line that is read as `l` is accepted. -/
theorem pipelineBuild_of_view {garbage : Nat → Nat → Option Word} {line : List Char}
    {l : CommandLine}
    (outcome : (pipelineBuild garbage line).map (Option.map Pipeline.view) = some (some l)) :
    ∃ pipeline, pipelineBuild garbage line = some (some pipeline) ∧ pipeline.view = l := by
  obtain ⟨result, built, views⟩ := Option.map_eq_some_iff.mp outcome
  obtain ⟨pipeline, rfl, view⟩ := Option.map_eq_some_iff.mp views
  exact ⟨pipeline, built, view⟩

/-! ### Whitespace -/

/-- **Only the tokens matter.** Two lines with the same tokens have the same outcome. -/
theorem pipelineBuild_congr_tokens {line line' : List Char} (noNul : '\x00' ∉ line)
    (noNul' : '\x00' ∉ line') (short : line.length ≤ maxLineLength)
    (short' : line'.length ≤ maxLineLength) (same : tokensOf line = tokensOf line')
    (garbage garbage' : Nat → Nat → Option Word) :
    ∃ outcome, (pipelineBuild garbage line).map (Option.map Pipeline.view) = some outcome ∧
      (pipelineBuild garbage' line').map (Option.map Pipeline.view) = some outcome := by
  refine ⟨readLine (tokensOf line), pipelineBuild_tokensOf garbage noNul short, ?_⟩
  rw [same]
  exact pipelineBuild_tokensOf garbage' noNul' short'

/-- The line `a<i|b`, with and without whitespace. -/
theorem pipelineBuild_congr_tokens_spaces :
    tokensOf ['a', '<', 'i', '|', 'b'] =
        tokensOf [' ', 'a', ' ', '<', '\t', 'i', ' ', '|', 'b', '\n'] ∧
      ∃ outcome, (pipelineBuild (fun _ _ => none) ['a', '<', 'i', '|', 'b']).map
          (Option.map Pipeline.view) = some outcome ∧
        (pipelineBuild (fun _ _ => some ['?'])
            [' ', 'a', ' ', '<', '\t', 'i', ' ', '|', 'b', '\n']).map
          (Option.map Pipeline.view) = some outcome :=
  ⟨by decide, pipelineBuild_congr_tokens (by decide) (by decide) (by decide) (by decide) (by decide)
    _ _⟩

/-! ### Lines of the grammar -/

/-- A command as it is written: its redirects come in either order. -/
structure WrittenCommand extends Command where
  outFirst : Bool

def WrittenCommand.tokens (c : WrittenCommand) : List Token :=
  c.args.map .word ++
    if c.outFirst then redirectTokens .rightAngle c.redirectOut ++ redirectTokens .leftAngle c.redirectIn
    else redirectTokens .leftAngle c.redirectIn ++ redirectTokens .rightAngle c.redirectOut

/-- A line as it is written. -/
structure WrittenLine where
  commands : List WrittenCommand
  background : Bool

/-- A pipe and a command for each of the further commands. -/
def pipedWritten (commands : List WrittenCommand) : List Token :=
  commands.flatMap fun c => .pipe :: c.tokens

def WrittenLine.tokens (l : WrittenLine) : List Token :=
  (match l.commands with
    | [] => []
    | c :: rest => c.tokens ++ pipedWritten rest) ++
  if l.background then [.ampersand] else []

/-- What the line says, whatever the order of the redirects. -/
def WrittenLine.commandLine (l : WrittenLine) : CommandLine where
  commands := l.commands.map (·.toCommand)
  background := l.background

/-- Both redirects are there, `>` before `<`. -/
def WrittenCommand.Reversed (c : WrittenCommand) : Prop :=
  c.outFirst = true ∧ c.redirectIn.isSome ∧ c.redirectOut.isSome

instance (c : WrittenCommand) : Decidable c.Reversed := inferInstanceAs (Decidable (_ ∧ _))

section Reading

variable {rest : List Token}

theorem readArgs_words (stops : Avoids rest .word) {words : List Word}
    (short : ∀ w ∈ words, w.length ≤ maxWordLength) :
    readArgs (words.map .word ++ rest) = some (words, rest) := by
  induction words with
  | nil =>
    cases rest with
    | nil => rfl
    | cons t rest =>
      cases t with
      | word w => exact absurd rfl (stops (.word w) rfl)
      | _ => simp [readArgs]
  | cons w words ih =>
    have fits : ¬ w.length > maxWordLength := Nat.not_lt.mpr (short w (by simp))
    have read := ih fun w' member => short w' (List.mem_cons_of_mem _ member)
    simp only [List.map_cons, List.cons_append, readArgs, fits, if_false, read, Option.map_some]

theorem readRedirect_avoids (angle : Token) (avoids : Avoids rest angle.type) :
    readRedirect angle rest = some (none, rest) := by
  cases rest with
  | nil => rfl
  | cons t rest =>
    have other : t ≠ angle := fun same => avoids t rfl (by rw [same])
    simp only [readRedirect, ne_eq, other, not_false_eq_true, if_true]

theorem readRedirect_redirectTokens (angle : Token) (avoids : Avoids rest angle.type)
    {path : Option Word} (short : ∀ p ∈ path, p.length ≤ maxWordLength) :
    readRedirect angle (redirectTokens angle path ++ rest) = some (path, rest) := by
  cases path with
  | none => exact readRedirect_avoids angle avoids
  | some p =>
    have fits : ¬ p.length > maxWordLength := Nat.not_lt.mpr (short p rfl)
    simp [redirectTokens, readRedirect, fits]

/-- The order in which the loop looks for the redirects. -/
theorem readRedirects_ordered (ends : Ends rest) {inPath outPath : Option Word}
    (short : ∀ p ∈ inPath, p.length ≤ maxWordLength)
    (short' : ∀ p ∈ outPath, p.length ≤ maxWordLength) :
    readRedirects none none (redirectTokens .leftAngle inPath ++
      (redirectTokens .rightAngle outPath ++ rest)) = some (inPath, outPath, rest) := by
  have apart : Token.rightAngle.type ≠ .leftAngle := by decide
  have first := readRedirect_redirectTokens .leftAngle
    (avoids_redirectTokens apart ends.left outPath) short
  have second := readRedirect_redirectTokens .rightAngle ends.right short'
  rw [readRedirects_eq]
  simp only [first, second]
  split
  -- after a round with both redirects the loop looks for two more
  · rw [readRedirects_eq]
    simp only [readRedirect_avoids .leftAngle ends.left, readRedirect_avoids .rightAngle ends.right]
    simp
  · simp

/-- With `>` before `<` the loop ends after `>`. -/
theorem readRedirects_reversed (inPath : Word) {outPath : Word} (short : outPath.length ≤ maxWordLength) :
    readRedirects none none (.rightAngle :: .word outPath :: .leftAngle :: .word inPath :: rest) =
      some (none, some outPath, .leftAngle :: .word inPath :: rest) := by
  have fits : ¬ outPath.length > maxWordLength := Nat.not_lt.mpr short
  rw [readRedirects_eq]
  simp [readRedirect, fits]

theorem WrittenCommand.tokens_ordered {c : WrittenCommand} (ordered : ¬ c.Reversed) :
    c.tokens = c.toCommand.tokens := by
  obtain ⟨⟨args, redirectIn, redirectOut⟩, outFirst⟩ := c
  cases outFirst <;> cases redirectIn <;> cases redirectOut <;>
    simp_all [WrittenCommand.tokens, Command.tokens, WrittenCommand.Reversed, redirectTokens]

variable {c : WrittenCommand}

theorem readCommand_ordered (ordered : ¬ c.Reversed) (nonempty : c.args ≠ [])
    (worded : c.toCommand.Worded) (ends : Ends rest) :
    readCommand (c.tokens ++ rest) = some (c.toCommand, rest) := by
  have stops : Avoids (redirectTokens .leftAngle c.redirectIn ++
      (redirectTokens .rightAngle c.redirectOut ++ rest)) .word :=
    avoids_redirectTokens (by decide) (avoids_redirectTokens (by decide) ends.word _) _
  rw [WrittenCommand.tokens_ordered ordered, Command.tokens, List.append_assoc, List.append_assoc,
    readCommand, readArgs_words stops fun w member => (worded.args w member).2]
  dsimp only
  rw [if_neg nonempty, readRedirects_ordered ends (fun p member => (worded.redirectIn p member).2)
    fun p member => (worded.redirectOut p member).2]

/-- The command ends before its `<`. -/
theorem readCommand_reversed (rest : List Token) (reversed : c.Reversed) (nonempty : c.args ≠ [])
    (worded : c.toCommand.Worded) :
    ∃ c' rest', readCommand (c.tokens ++ rest) = some (c', .leftAngle :: rest') := by
  obtain ⟨⟨args, redirectIn, redirectOut⟩, outFirst⟩ := c
  obtain ⟨rfl, isIn, isOut⟩ := reversed
  obtain ⟨inPath, rfl⟩ := Option.isSome_iff_exists.mp isIn
  obtain ⟨outPath, rfl⟩ := Option.isSome_iff_exists.mp isOut
  have stops : Avoids (.rightAngle :: .word outPath :: .leftAngle :: .word inPath :: rest) .word := by
    intro t head
    obtain rfl : Token.rightAngle = t := by simpa using head
    decide
  refine ⟨⟨args, none, some outPath⟩, .word inPath :: rest, ?_⟩
  have args_ := readArgs_words stops fun w member => (worded.args w member).2
  have short := (worded.redirectOut outPath rfl).2
  simp only [WrittenCommand.tokens, if_true, redirectTokens, List.append_assoc, List.cons_append,
    List.nil_append, readCommand, args_, if_neg nonempty,
    readRedirects_reversed inPath short]

end Reading

theorem ends_pipedWritten {tail : List Token} (ends : Ends tail) (commands : List WrittenCommand) :
    Ends (pipedWritten commands ++ tail) := by
  cases commands with
  | nil => exact ends
  | cons c rest => exact ends_pipe _

section Pipes

variable {tail : List Token}

theorem pipedWritten_cons (c : WrittenCommand) (commands : List WrittenCommand) (tail : List Token) :
    pipedWritten (c :: commands) ++ tail = .pipe :: (c.tokens ++ (pipedWritten commands ++ tail)) := by
  simp [pipedWritten]

theorem readPipes_ordered (ends : Ends tail) (avoids : Avoids tail .pipe)
    {commands : List WrittenCommand} (ordered : ∀ c ∈ commands, ¬ c.Reversed)
    (nonempty : ∀ c ∈ commands, c.args ≠ []) (worded : ∀ c ∈ commands, c.toCommand.Worded)
    {previous : Command} (some_ : previous.args ≠ []) :
    readPipes previous (pipedWritten commands ++ tail) = some (commands.map (·.toCommand), tail) := by
  induction commands generalizing previous with
  | nil => exact readPipes_of_avoids previous avoids
  | cons c commands ih =>
    have here : c ∈ c :: commands := by simp
    have later : ∀ c' ∈ commands, c' ∈ c :: commands := fun _ => List.mem_cons_of_mem _
    rw [pipedWritten_cons, readPipes_pipe, if_neg some_, readCommand_ordered (ordered c here)
      (nonempty c here) (worded c here) (ends_pipedWritten ends commands)]
    dsimp only
    rw [ih (fun c' member => ordered c' (later c' member))
      (fun c' member => nonempty c' (later c' member))
      (fun c' member => worded c' (later c' member)) (nonempty c here)]
    rfl

/-- The commands end before the first `<` that comes after its `>`. -/
theorem readPipes_reversed (ends : Ends tail) {commands : List WrittenCommand}
    (reversed : ∃ c ∈ commands, c.Reversed) (nonempty : ∀ c ∈ commands, c.args ≠ [])
    (worded : ∀ c ∈ commands, c.toCommand.Worded) {previous : Command} (some_ : previous.args ≠ []) :
    ∃ built rest, readPipes previous (pipedWritten commands ++ tail) =
      some (built, .leftAngle :: rest) := by
  induction commands generalizing previous with
  | nil =>
    obtain ⟨c, member, -⟩ := reversed
    exact absurd member List.not_mem_nil
  | cons c commands ih =>
    have here : c ∈ c :: commands := by simp
    have later : ∀ c' ∈ commands, c' ∈ c :: commands := fun _ => List.mem_cons_of_mem _
    rw [pipedWritten_cons, readPipes_pipe, if_neg some_]
    by_cases first : c.Reversed
    · obtain ⟨c', rest, read⟩ := readCommand_reversed (pipedWritten commands ++ tail) first
        (nonempty c here) (worded c here)
      have avoids : Avoids (.leftAngle :: rest) .pipe := by
        intro t head
        obtain rfl : Token.leftAngle = t := by simpa using head
        decide
      exact ⟨[c'], rest, by rw [read]; dsimp only; rw [readPipes_of_avoids c' avoids, Option.map_some]⟩
    · have others : ∃ c' ∈ commands, c'.Reversed := by
        obtain ⟨c', member, found⟩ := reversed
        rcases List.mem_cons.mp member with rfl | inside
        · exact absurd found first
        · exact ⟨c', inside, found⟩
      obtain ⟨built, rest, read⟩ := ih others (fun c' member => nonempty c' (later c' member))
        (fun c' member => worded c' (later c' member)) (nonempty c here)
      rw [readCommand_ordered first (nonempty c here) (worded c here) (ends_pipedWritten ends commands)]
      exact ⟨c.toCommand :: built, rest, by dsimp only; rw [read, Option.map_some]⟩

end Pipes

/-- What may follow the commands. -/
theorem ends_ampersand (background : Bool) : Ends (if background then [.ampersand] else []) := by
  cases background with
  | false => exact ⟨fun t head => by simp at head, fun t head => by simp at head,
      fun t head => by simp at head⟩
  | true =>
    have only : ∀ t ∈ (if true then [Token.ampersand] else []).head?, t = .ampersand := fun t head => by
      simpa [eq_comm] using head
    exact ⟨fun t head => only t head ▸ by decide, fun t head => only t head ▸ by decide,
      fun t head => only t head ▸ by decide⟩

theorem avoids_ampersand (background : Bool) :
    Avoids (if background then [.ampersand] else []) .pipe := by
  cases background with
  | false => exact fun t head => by simp at head
  | true =>
    intro t head
    obtain rfl : Token.ampersand = t := by simpa using head
    decide

/-- A line of the grammar is read as what it says unless a `<` comes after its `>`. -/
theorem readLine_written_iff {l : WrittenLine} (formed : l.commandLine.WellFormed) :
    readLine l.tokens = some l.commandLine ↔ ∀ c ∈ l.commands, ¬ c.Reversed := by
  obtain ⟨commands, background⟩ := l
  have nonempty : ∀ c ∈ commands, c.args ≠ [] := fun c member =>
    formed.args c.toCommand (List.mem_map_of_mem member)
  have worded : ∀ c ∈ commands, c.toCommand.Worded := fun c member =>
    formed.words c.toCommand (List.mem_map_of_mem member)
  obtain ⟨c, rest, rfl⟩ : ∃ c rest, commands = c :: rest :=
    List.exists_cons_of_ne_nil fun empty => formed.nonempty (by simp [WrittenLine.commandLine, empty])
  have here : c ∈ c :: rest := by simp
  have later : ∀ c' ∈ rest, c' ∈ c :: rest := fun _ => List.mem_cons_of_mem _
  have ends := ends_ampersand background
  simp only [WrittenLine.tokens, List.append_assoc, readLine]
  -- The first reversed command stops the reading at its `<`, which is neither a pipe nor the end
  -- of a line.
  by_cases first : c.Reversed
  · obtain ⟨c', rest', read⟩ := readCommand_reversed
      (pipedWritten rest ++ if background then [.ampersand] else []) first
      (nonempty c here) (worded c here)
    have avoids : Avoids (.leftAngle :: rest') .pipe := by
      intro t head
      obtain rfl : Token.leftAngle = t := by simpa using head
      decide
    rw [read]
    dsimp only
    rw [readPipes_of_avoids c' avoids]
    exact iff_of_false (by simp [readEnd]) fun ordered => ordered c here first
  rw [readCommand_ordered first (nonempty c here) (worded c here) (ends_pipedWritten ends rest)]
  dsimp only
  by_cases ordered : ∀ c' ∈ rest, ¬ c'.Reversed
  · rw [readPipes_ordered ends (avoids_ampersand background) ordered
      (fun c' member => nonempty c' (later c' member))
      (fun c' member => worded c' (later c' member)) (nonempty c here)]
    refine iff_of_true ?_ fun c' member => ?_
    · dsimp only
      rw [readEnd_eq_some.mpr rfl]
      rfl
    · rcases List.mem_cons.mp member with rfl | inside
      · exact first
      · exact ordered c' inside
  · -- the reversed command is a later one: the commands before it are read, and the end is not met
    have reversed : ∃ c' ∈ rest, c'.Reversed := by
      by_contra none_
      exact ordered fun c' member found => none_ ⟨c', member, found⟩
    obtain ⟨built, rest', read⟩ := readPipes_reversed ends reversed
      (fun c' member => nonempty c' (later c' member))
      (fun c' member => worded c' (later c' member)) (nonempty c here)
    rw [read]
    refine iff_of_false (by simp [readEnd]) fun all => ?_
    obtain ⟨c', member, found⟩ := reversed
    exact all c' (later c' member) found

/-- **Completeness.** A line of the grammar is accepted, with exactly the arguments, paths and
flag it is written with, if and only if no command on it has its `>` before its `<`. -/
theorem pipelineBuild_complete_iff (garbage : Nat → Nat → Option Word) {l : WrittenLine}
    (formed : l.commandLine.WellFormed) {line : List Char} (noNul : '\x00' ∉ line)
    (short : line.length ≤ maxLineLength) (tokens : tokensOf line = l.tokens) :
    (∃ pipeline, pipelineBuild garbage line = some (some pipeline) ∧
      pipeline.view = l.commandLine) ↔ ∀ c ∈ l.commands, ¬ c.Reversed := by
  have outcome := pipelineBuild_tokensOf garbage noNul short
  rw [tokens] at outcome
  rw [← readLine_written_iff formed]
  constructor
  · rintro ⟨pipeline, built, view⟩
    rw [built, Option.map_some, Option.map_some, Option.some.injEq] at outcome
    rw [← outcome, view]
  · intro read
    rw [read] at outcome
    exact pipelineBuild_of_view outcome

/-- The line `a <i >o | b &`. -/
def orderedLine : WrittenLine where
  commands := [⟨⟨[['a']], some ['i'], some ['o']⟩, false⟩, ⟨⟨[['b']], none, none⟩, true⟩]
  background := true

theorem pipelineBuild_complete_iff_ordered :
    ∃ pipeline, pipelineBuild (fun _ _ => none)
        ['a', ' ', '<', 'i', ' ', '>', 'o', '|', 'b', ' ', '&', '\n'] = some (some pipeline) ∧
      pipeline.view = orderedLine.commandLine :=
  (pipelineBuild_complete_iff _ (l := orderedLine) (by decide) (by decide) (by decide)
    (by decide)).mpr (by decide)

/-- The line `cat > y < x`. -/
def reversedLine : WrittenLine where
  commands := [⟨⟨[['c', 'a', 't']], some ['x'], some ['y']⟩, true⟩]
  background := false

/-- A line of the grammar that is rejected. -/
theorem reversed_redirects_rejected :
    reversedLine.commandLine.WellFormed ∧
      tokensOf ['c', 'a', 't', ' ', '>', ' ', 'y', ' ', '<', ' ', 'x', '\n'] = reversedLine.tokens ∧
      pipelineBuild (fun _ _ => none)
        ['c', 'a', 't', ' ', '>', ' ', 'y', ' ', '<', ' ', 'x', '\n'] = some none :=
  ⟨by decide, by decide, rfl⟩

/-! ### What is accepted -/

/-- A command has arguments exactly if the tokens that it ends with end in a word. -/
def Finishes (body : List Token) (c : Command) : Prop :=
  c.args ≠ [] ↔ ∃ w, body.getLast? = some (.word w)

theorem finishes_of_plain {body used : List Token} {c : Command} (plain : Plain used)
    (empty : c.args = [] ↔ used = []) (notWord : ∀ w, body.getLast? ≠ some (.word w)) :
    Finishes (body ++ used) c := by
  by_cases none_ : used = []
  · rw [none_, List.append_nil]
    exact iff_of_false (not_not_intro (empty.mpr none_)) fun ⟨w, last⟩ => notWord w last
  · obtain ⟨w, last⟩ := plain.ends none_
    exact iff_of_true (fun args => none_ (empty.mp args)) ⟨w, by simp [List.getLast?_append, last]⟩

/-- What the loop of `parse_pipes` consumes: one pipe for each command, no ampersand, and all
commands but the last have arguments. -/
structure Piped (previous : Command) (used : List Token) (commands : List Command) : Prop where
  ampersand : .ampersand ∉ used
  pipes : used.count .pipe = commands.length
  leading : ∀ c ∈ (previous :: commands).dropLast, c.args ≠ []
  finishes : ∀ body, Finishes body previous →
    ∀ last ∈ (previous :: commands).getLast?, Finishes (body ++ used) last

theorem Piped.nil (previous : Command) : Piped previous [] [] where
  ampersand := List.not_mem_nil
  pipes := rfl
  leading := fun _ member => absurd member List.not_mem_nil
  finishes := fun body before last member => by
    obtain rfl : previous = last := by simpa using member
    rwa [List.append_nil]

theorem Piped.cons {previous c : Command} {used used' : List Token} {commands : List Command}
    (nonempty : previous.args ≠ []) (plain : Plain used) (empty : c.args = [] ↔ used = [])
    (piped : Piped c used' commands) : Piped previous (.pipe :: (used ++ used')) (c :: commands) where
  ampersand := by
    rw [List.mem_cons, List.mem_append]
    rintro (contrary | inside | inside)
    · exact absurd contrary (by decide)
    · exact (plain.commands _ inside).2 rfl
    · exact piped.ampersand inside
  pipes := by
    have none_ : used.count .pipe = 0 :=
      List.count_eq_zero.mpr fun inside => (plain.commands _ inside).1 rfl
    rw [List.count_cons_self, List.count_append, none_, piped.pipes, List.length_cons, Nat.zero_add]
  leading := fun c' member => by
    rw [List.dropLast_cons_cons] at member
    rcases List.mem_cons.mp member with rfl | inside
    · exact nonempty
    · exact piped.leading c' inside
  finishes := fun body _ last member => by
    rw [List.getLast?_cons_cons] at member
    have before : Finishes ((body ++ [.pipe]) ++ used) c :=
      finishes_of_plain plain empty fun w => by simp
    have after := piped.finishes _ before last member
    rwa [List.append_assoc, List.append_assoc] at after

theorem readPipes_consumes {previous : Command} {tokens rest : List Token} {commands : List Command}
    (read : readPipes previous tokens = some (commands, rest)) :
    ∃ used, tokens = used ++ rest ∧ Piped previous used commands := by
  fun_induction readPipes previous tokens generalizing commands with
  | case1 => simp at read
  | case2 => simp at read
  | case3 previous rest₁ nonempty c rest₂ next ih =>
    obtain ⟨⟨commands', rest'⟩, readRest, eq⟩ := Option.map_eq_some_iff.mp read
    rw [Prod.mk.injEq] at eq
    obtain ⟨rfl, rfl⟩ := eq
    obtain ⟨used, rfl, plain, empty⟩ := readCommand_consumes next
    obtain ⟨used', rfl, piped⟩ := ih readRest
    exact ⟨_, by simp, piped.cons nonempty plain empty⟩
  | case4 previous tokens notPipe =>
    simp only [Option.some.injEq, Prod.mk.injEq] at read
    obtain ⟨rfl, rfl⟩ := read
    exact ⟨[], rfl, .nil previous⟩

/-- An accepted line: the tokens of its commands, and an ampersand for a background line. -/
theorem readLine_consumes {tokens : List Token} {l : CommandLine} (read : readLine tokens = some l) :
    ∃ body, tokens = body ++ (if l.background then [.ampersand] else []) ∧ .ampersand ∉ body ∧
      l.commands.length = body.count .pipe + 1 ∧ (∀ c ∈ l.commands.dropLast, c.args ≠ []) ∧
      ∀ last ∈ l.commands.getLast?, Finishes body last := by
  unfold readLine at read
  split at read
  · simp at read
  next c rest first =>
    split at read
    · simp at read
    next commands rest' others =>
      obtain ⟨background, ends, rfl⟩ := Option.map_eq_some_iff.mp read
      obtain ⟨used, rfl, plain, empty⟩ := readCommand_consumes first
      obtain ⟨used', rfl, piped⟩ := readPipes_consumes others
      have begins : Finishes used c := by
        have alone : Finishes ([] ++ used) c := finishes_of_plain plain empty fun w => by simp
        rwa [List.nil_append] at alone
      refine ⟨used ++ used', ?_, ?_, ?_, piped.leading, piped.finishes used begins⟩
      · rw [readEnd_eq_some.mp ends, List.append_assoc]
      · rw [List.mem_append, not_or]
        exact ⟨fun inside => (plain.commands _ inside).2 rfl, piped.ampersand⟩
      · have none_ : used.count .pipe = 0 :=
          List.count_eq_zero.mpr fun inside => (plain.commands _ inside).1 rfl
        rw [List.count_append, none_, piped.pipes, List.length_cons, Nat.zero_add]

/-- The first entry of `command_args` is NULL exactly if there are no arguments. -/
theorem PipelineCommand.view_args_eq_nil (command : PipelineCommand) :
    command.view.args = [] ↔ command.commandArgs 0 = none := by
  have entries : (List.range maxArgvLength).map command.commandArgs =
      command.commandArgs 0 :: ((List.range (maxArgvLength - 1)).map Nat.succ).map command.commandArgs := by
    rw [show maxArgvLength = (maxArgvLength - 1) + 1 from rfl, List.range_succ_eq_map, List.map_cons]
    rfl
  rw [PipelineCommand.view, entries]
  cases command.commandArgs 0 with
  | none => simp [wordsUntilNull]
  | some w => simp [wordsUntilNull]

/-- What should hold of a pipeline built from these tokens: every command has a name, there is
one command more than there are pipes, and the pipeline is in the background exactly if an
ampersand, of which there is no other, ends the line. -/
structure Proper (tokens : List Token) (pipeline : Pipeline) : Prop where
  named : ∀ command ∈ pipeline.commands, command.commandArgs 0 ≠ none
  pipes : pipeline.commands.length = tokens.count .pipe + 1
  background : pipeline.isBackground = true ↔ tokens.getLast? = some .ampersand
  ampersand : .ampersand ∉ tokens.dropLast

/-- The last token is a word, but for an ampersand after it. -/
def EndsInWord (tokens : List Token) : Prop :=
  ∃ front w, tokens = front ++ [.word w] ∨ tokens = front ++ [.word w, .ampersand]

theorem endsInWord_iff {body : List Token} (noAmpersand : .ampersand ∉ body) (background : Bool) :
    EndsInWord (body ++ if background then [.ampersand] else []) ↔
      ∃ w, body.getLast? = some (.word w) := by
  constructor
  · rintro ⟨front, w, eq | eq⟩
    · refine ⟨w, ?_⟩
      cases background with
      | false =>
        rw [if_neg (by decide), List.append_nil] at eq
        simp [eq]
      | true =>
        have last := congrArg List.getLast? eq
        simp at last
    · refine ⟨w, ?_⟩
      cases background with
      | false =>
        rw [if_neg (by decide), List.append_nil] at eq
        exact absurd (by simp [eq]) noAmpersand
      | true =>
        have split : body ++ [.ampersand] = (front ++ [.word w]) ++ [.ampersand] := by
          rw [List.append_assoc]
          exact eq
        rw [List.append_cancel_right split]
        simp
  · rintro ⟨w, last⟩
    obtain ⟨front, rfl⟩ := List.getLast?_eq_some_iff.mp last
    refine ⟨front, w, ?_⟩
    cases background with
    | false => exact Or.inl (by simp)
    | true => exact Or.inr (by simp)

/-- **Soundness.** An accepted line gives a proper pipeline if and only if its last token, but
for a final ampersand, is a word. -/
theorem pipelineBuild_proper_iff {garbage : Nat → Nat → Option Word} {line : List Char}
    (noNul : '\x00' ∉ line) (short : line.length ≤ maxLineLength) {pipeline : Pipeline}
    (accepted : pipelineBuild garbage line = some (some pipeline)) :
    Proper (tokensOf line) pipeline ↔ EndsInWord (tokensOf line) := by
  have outcome := pipelineBuild_tokensOf garbage noNul short
  rw [accepted, Option.map_some, Option.map_some, Option.some.injEq] at outcome
  obtain ⟨body, split, noAmpersand, pipes, leading, finishes⟩ := readLine_consumes outcome.symm
  have commands : pipeline.view.commands = pipeline.commands.map PipelineCommand.view := rfl
  have background : pipeline.view.background = pipeline.isBackground := rfl
  rw [commands, List.length_map] at pipes
  rw [background] at split
  have nonempty : pipeline.commands ≠ [] := by
    intro empty
    rw [empty] at pipes
    simp at pipes
  obtain ⟨front, last, shape⟩ : ∃ front last, pipeline.commands = front ++ [last] :=
    ⟨_, _, (List.dropLast_append_getLast nonempty).symm⟩
  rw [commands, shape, List.map_append, List.map_singleton] at leading finishes
  rw [List.dropLast_concat] at leading
  have ends := finishes last.view (by simp)
  rw [Finishes, ne_eq, PipelineCommand.view_args_eq_nil, ← endsInWord_iff noAmpersand, ← split] at ends
  rw [← ends]
  refine ⟨fun proper => proper.named last (by simp [shape]), fun named => ?_⟩
  -- the rest holds of every accepted line
  have noOther : tokensOf line = body ++ [.ampersand] ∨ tokensOf line = body := by
    rw [split]
    cases pipeline.isBackground
    · exact Or.inr (by simp)
    · exact Or.inl (by simp)
  refine ⟨fun command member => ?_, ?_, ?_, ?_⟩
  · rw [shape] at member
    rcases List.mem_append.mp member with inside | isLast
    · have args := leading command.view (List.mem_map_of_mem inside)
      rwa [ne_eq, PipelineCommand.view_args_eq_nil] at args
    · rw [List.mem_singleton.mp isLast]
      exact named
  · rw [pipes]
    rcases noOther with eq | eq <;> simp [eq, List.count_append]
  · rw [split]
    cases pipeline.isBackground with
    | true => simp
    | false =>
      refine iff_of_false (by decide) fun contrary => noAmpersand ?_
      rw [if_neg (by decide), List.append_nil] at contrary
      exact List.mem_of_getLast? contrary
  · rcases noOther with eq | eq
    · rw [eq, List.dropLast_concat]
      exact noAmpersand
    · rw [eq]
      exact fun inside => noAmpersand (List.dropLast_subset _ inside)

/-- The line `a | b &`. -/
theorem pipelineBuild_proper_iff_background :
    ∃ pipeline, pipelineBuild (fun _ _ => none) ['a', '|', 'b', '&'] = some (some pipeline) ∧
      Proper (tokensOf ['a', '|', 'b', '&']) pipeline := by
  have accepted : pipelineBuild (fun _ _ => none) ['a', '|', 'b', '&'] = some (some _) := rfl
  exact ⟨_, accepted, (pipelineBuild_proper_iff (by decide) (by decide) accepted).mpr
    ⟨[.word ['a'], .pipe], ['b'], Or.inr (by decide)⟩⟩

/-- The line `ls |` is accepted, with a second command that has no name. -/
theorem pipe_at_end_accepted :
    ∃ pipeline, pipelineBuild (fun _ _ => none) ['l', 's', ' ', '|', '\n'] = some (some pipeline) ∧
      ¬ Proper (tokensOf ['l', 's', ' ', '|', '\n']) pipeline :=
  ⟨_, rfl, fun proper => proper.named _ (List.mem_cons_of_mem _ (List.mem_singleton_self _)) rfl⟩

end OperatingSys.Shell
