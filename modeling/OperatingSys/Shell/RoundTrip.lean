import OperatingSys.Shell.Printing

/-!
# Printing and building

What the parser accepts is a command line that can be printed, and every line that prints a
command line is parsed back to it.
-/

namespace OperatingSys.Shell

/-! ### What is accepted -/

/-- What `next_token` calls a word is one, and `strndup` copies all of it. -/
theorem nextToken_word {line token : List Char} {length : Nat}
    (next : nextToken line = (token, length, .word)) :
    IsWord (strndup token length) ∧ (strndup token length).length = length := by
  obtain ⟨gap, start, -, -, found, notWhite⟩ := nextToken_split line
  rw [found, Prod.mk.injEq] at next
  obtain ⟨rfl, at_⟩ := next
  cases start with
  | nil => simp [tokenAt] at at_
  | cons c more =>
    have notNul : c ≠ '\x00' := by
      rintro rfl
      simp [tokenAt] at at_
    rcases tokenAt_cons more (notWhite c rfl) notNul with
      ⟨t, -, special, token⟩ | ⟨w, tail, split, word, token, -⟩
    · rw [token, Prod.mk.injEq] at at_
      exact absurd at_.2 special
    · rw [token, Prod.mk.injEq] at at_
      obtain ⟨rfl, -⟩ := at_
      rw [split, strndup_word word]
      exact ⟨word, rfl⟩

theorem parseArgsLoop_sound {rounds : Nat} {token token' : List Char} {command command' : PipelineCommand}
    {k : Nat} {n : Int} (parsed : parseArgsLoop rounds token command k = some (n, token', command')) :
    n = -1 ∨ ∃ words : List Word, (∀ w ∈ words, ShortWord w) ∧ n = (k + words.length : Nat) ∧
      k + words.length < maxArgvLength ∧
      command' = { command with commandArgs := storeArgs command.commandArgs k words } := by
  -- by induction on the rounds, each of which stores one word or ends the loop
  induction rounds generalizing token command k with
  | zero => simp [parseArgsLoop] at parsed
  | succ rounds ih =>
    obtain ⟨start, length, type, next⟩ : ∃ start length type,
      nextToken token = (start, length, type) := ⟨_, _, _, rfl⟩
    simp only [parseArgsLoop, next] at parsed
    split at parsed
    next isWord =>
      rw [isWord] at next
      split at parsed
      · simp only [Option.some.injEq, Prod.mk.injEq] at parsed
        exact Or.inl parsed.1.symm
      next fits =>
        obtain ⟨word, size⟩ := nextToken_word next
        by_cases inside : k < maxArgvLength
        · rw [setArg_of_lt inside] at parsed
          rcases ih parsed with failed | ⟨words, short, count, room, rfl⟩
          · exact Or.inl failed
          · refine Or.inr ⟨strndup start length :: words, ?_, ?_, ?_, rfl⟩
            · rintro w (_ | ⟨_, member⟩)
              · exact ⟨word, by omega⟩
              · exact short w member
            · rw [count, List.length_cons]
              omega
            · rw [List.length_cons]
              omega
        · simp [PipelineCommand.setArg, inside] at parsed
    next =>
      by_cases inside : k < maxArgvLength
      · rw [setArg_of_lt inside] at parsed
        simp only [Option.some.injEq, Prod.mk.injEq] at parsed
        obtain ⟨rfl, -, rfl⟩ := parsed
        exact Or.inr ⟨[], fun _ member => absurd member List.not_mem_nil, rfl, inside, rfl⟩
      · simp [PipelineCommand.setArg, inside] at parsed

/-- A redirect is stored as a word or not at all. -/
theorem parseRedirect_sound (angle : TokenType) (keep : PipelineCommand → Word → PipelineCommand)
    (token : List Char) (command : PipelineCommand) :
    (parseRedirect angle keep token command).2.2 = command ∨
      ∃ path, ShortWord path ∧ (parseRedirect angle keep token command).2.2 = keep command path := by
  simp only [parseRedirect]
  split
  · exact Or.inl rfl
  · split
    · exact Or.inl rfl
    next isWord =>
      split
      · exact Or.inl rfl
      next fits =>
        obtain ⟨start, length, type, next⟩ : ∃ start length type,
            nextToken ((nextToken token).1.drop (nextToken token).2.1) = (start, length, type) :=
          ⟨_, _, _, rfl⟩
        simp only [next, not_not] at isWord fits ⊢
        rw [isWord] at next
        obtain ⟨word, size⟩ := nextToken_word next
        exact Or.inr ⟨_, ⟨word, by omega⟩, rfl⟩

/-- Both redirects of a command are words that were stored, if they are set. -/
structure Redirected (command command' : PipelineCommand) : Prop where
  args : command'.commandArgs = command.commandArgs
  redirectIn : ∀ p ∈ command'.redirectInPath, ShortWord p
  redirectOut : ∀ p ∈ command'.redirectOutPath, ShortWord p

theorem parseRedirectIn_sound {command₀ command : PipelineCommand}
    (before : Redirected command₀ command) (token : List Char) :
    Redirected command₀ (parseRedirectIn token command).2.2 := by
  rcases parseRedirect_sound .leftAngle
    (fun command path => { command with redirectInPath := some path }) token command with
    same | ⟨path, short, eq⟩
  · rw [parseRedirectIn, same]
    exact before
  · rw [parseRedirectIn, eq]
    refine ⟨before.args, fun p member => ?_, before.redirectOut⟩
    obtain rfl : path = p := by simpa using member
    exact short

theorem parseRedirectOut_sound {command₀ command : PipelineCommand}
    (before : Redirected command₀ command) (token : List Char) :
    Redirected command₀ (parseRedirectOut token command).2.2 := by
  rcases parseRedirect_sound .rightAngle
    (fun command path => { command with redirectOutPath := some path }) token command with
    same | ⟨path, short, eq⟩
  · rw [parseRedirectOut, same]
    exact before
  · rw [parseRedirectOut, eq]
    refine ⟨before.args, before.redirectIn, fun p member => ?_⟩
    obtain rfl : path = p := by simpa using member
    exact short

theorem redirectLoop_sound {rounds : Nat} {token token' : List Char}
    {command₀ command command' : PipelineCommand} {inRet outRet : Int}
    (before : Redirected command₀ command)
    (parsed : redirectLoop rounds token command = some (inRet, outRet, token', command')) :
    Redirected command₀ command' := by
  induction rounds generalizing token command with
  | zero => simp [redirectLoop] at parsed
  | succ rounds ih =>
    have after := parseRedirectOut_sound (parseRedirectIn_sound before token)
      (parseRedirectIn token command).2.1
    simp only [redirectLoop] at parsed
    split at parsed
    · exact ih after parsed
    · simp only [Option.some.injEq, Prod.mk.injEq] at parsed
      exact parsed.2.2.2 ▸ after

theorem parseCommand_sound {garbage : Nat → Option Word} {token token' : List Char}
    {command : PipelineCommand} {n : Int}
    (parsed : parseCommand token (pipelineCommandAlloc garbage) = some (n, token', command)) :
    n = -1 ∨ command.view.Sound ∧ (n = 1 → command.view.args ≠ []) := by
  simp only [parseCommand] at parsed
  cases args : parseArgs token (pipelineCommandAlloc garbage) with
  | none => simp [args] at parsed
  | some result =>
    obtain ⟨argsParsed, token₁, command₁⟩ := result
    simp only [args] at parsed
    rcases parseArgsLoop_sound args with failed | ⟨words, short, count, room, stored⟩
    · rw [failed, if_pos (by decide)] at parsed
      simp only [Option.some.injEq, Prod.mk.injEq] at parsed
      exact Or.inl parsed.1.symm
    rw [Nat.zero_add] at count room
    have view := view_storeArgs (pipelineCommandAlloc garbage) room
    -- no words: the command stays without redirects, and the result is 0
    by_cases none_ : words = []
    · subst none_
      rw [count, if_pos (by decide)] at parsed
      simp only [Option.some.injEq, Prod.mk.injEq] at parsed
      obtain ⟨rfl, -, rfl⟩ := parsed
      rw [← stored] at view
      refine Or.inr ⟨?_, fun one => absurd one (by decide)⟩
      rw [view]
      exact ⟨⟨short, fun p member => absurd member (by simp [pipelineCommandAlloc]),
        fun p member => absurd member (by simp [pipelineCommandAlloc])⟩, room, fun _ => ⟨rfl, rfl⟩⟩
    · have some_ : ¬ (argsParsed < 1) := by
        have := List.length_pos_iff.mpr none_
        omega
      rw [if_neg some_] at parsed
      cases loop : redirectLoop (token₁.length + 1) token₁ command₁ with
      | none => simp [loop] at parsed
      | some result =>
        obtain ⟨inRet, outRet, token₂, command₂⟩ := result
        simp only [loop] at parsed
        have fresh : Redirected command₁ command₁ := by
          rw [stored]
          exact ⟨rfl, fun p member => absurd member (by simp [pipelineCommandAlloc]),
            fun p member => absurd member (by simp [pipelineCommandAlloc])⟩
        -- redirects do not touch the words
        have redirected := redirectLoop_sound fresh loop
        have same : command₂.view.args = words := by
          have first : command₁.view.args = words := by rw [stored, view]
          rw [← first]
          simp only [PipelineCommand.view, redirected.args]
        split at parsed
        · simp only [Option.some.injEq, Prod.mk.injEq] at parsed
          exact Or.inl parsed.1.symm
        · simp only [Option.some.injEq, Prod.mk.injEq] at parsed
          obtain ⟨-, -, rfl⟩ := parsed
          exact Or.inr ⟨⟨⟨same ▸ short, redirected.redirectIn, redirected.redirectOut⟩, same ▸ room,
            fun empty => absurd (same.symm.trans empty) none_⟩, fun _ => same ▸ none_⟩

/-- The commands built so far, of which only the last may have no arguments, and that only if
the last call of `parse_command` returned 0. -/
def Building (commands : List PipelineCommand) (lastCmdParse : Int) : Prop :=
  ∃ front last, commands = front ++ [last] ∧
    (∀ c ∈ front, c.view.Sound ∧ c.view.args ≠ []) ∧ last.view.Sound ∧
    (lastCmdParse = 1 → last.view.args ≠ [])

theorem pipesLoop_sound {garbage : Nat → Nat → Option Word} {rounds : Nat}
    {token token' : List Char} {commands commands' : List PipelineCommand} {lastCmdParse n : Int}
    (building : Building commands lastCmdParse)
    (parsed : pipesLoop garbage rounds token commands lastCmdParse = some (n, token', commands')) :
    n = -1 ∨ ∃ lastCmdParse', Building commands' lastCmdParse' := by
  induction rounds generalizing token commands lastCmdParse with
  | zero => simp [pipesLoop] at parsed
  | succ rounds ih =>
    simp only [pipesLoop] at parsed
    split at parsed
    · split at parsed
      · simp only [Option.some.injEq, Prod.mk.injEq] at parsed
        exact Or.inl parsed.1.symm
      -- a pipe after a command with words: the next command joins the ones before
      next one =>
        rw [ne_eq, not_not] at one
        obtain ⟨front, last, rfl, leading, sound, nonempty⟩ := building
        split at parsed
        · simp at parsed
        next parse token₁ command called =>
          split at parsed
          · simp only [Option.some.injEq, Prod.mk.injEq] at parsed
            exact Or.inl parsed.1.symm
          next fine =>
            rcases parseCommand_sound called with failed | ⟨sound', nonempty'⟩
            · exact absurd failed fine
            · refine ih ⟨front ++ [last], command, rfl, fun c member => ?_, sound', nonempty'⟩ parsed
              rcases List.mem_append.mp member with old | new
              · exact leading c old
              · rw [List.mem_singleton.mp new]
                exact ⟨sound, nonempty one⟩
    · simp only [Option.some.injEq, Prod.mk.injEq] at parsed
      exact Or.inr ⟨lastCmdParse, parsed.2.2 ▸ building⟩

/-- A pipeline that `parse_pipes` reports as parsed is built command by command. -/
theorem parsePipes_sound {garbage : Nat → Nat → Option Word} {line : List Char} {n : Int}
    {pipeline : Pipeline} (pipes : parsePipes garbage line = some (n, pipeline)) (parsed : n ≠ -1) :
    ∃ lastCmdParse, Building pipeline.commands lastCmdParse := by
  simp only [parsePipes] at pipes
  split at pipes
  · simp at pipes
  next lastCmdParse token₁ command called =>
    split at pipes
    · simp only [Option.some.injEq, Prod.mk.injEq] at pipes
      exact absurd pipes.1.symm parsed
    next fine =>
      rcases parseCommand_sound called with bad | ⟨sound, nonempty⟩
      · exact absurd bad fine
      -- the first command is the whole pipeline so far, with nothing before it
      have start : Building [command] lastCmdParse :=
        ⟨[], command, rfl, fun _ member => absurd member List.not_mem_nil, sound, nonempty⟩
      split at pipes
      · simp at pipes
      next pipeCount token₂ commands looped =>
        have loop := pipesLoop_sound start looped
        split at pipes
        · simp only [Option.some.injEq, Prod.mk.injEq] at pipes
          exact absurd pipes.1.symm parsed
        next fine' =>
          have final := loop.resolve_left fine'
          -- what is left are the checks of `&` and of the end of the line
          split at pipes
          · simp only [Option.some.injEq, Prod.mk.injEq] at pipes
            exact absurd pipes.1.symm parsed
          · split at pipes
            · simp only [Option.some.injEq, Prod.mk.injEq] at pipes
              exact absurd pipes.1.symm parsed
            · simp only [Option.some.injEq, Prod.mk.injEq] at pipes
              rw [← pipes.2]
              exact final

theorem Building.buildable {pipeline : Pipeline} {lastCmdParse : Int}
    (building : Building pipeline.commands lastCmdParse) : pipeline.view.Buildable := by
  obtain ⟨front, last, commands, leading, sound, -⟩ := building
  have views : pipeline.view.commands =
      front.map PipelineCommand.view ++ [last.view] := by
    simp [Pipeline.view, commands]
  refine ⟨by simp [views], fun c member => ?_, fun c member => ?_⟩
  · rw [views] at member
    rcases List.mem_append.mp member with inFront | isLast
    · obtain ⟨c', inside, rfl⟩ := List.mem_map.mp inFront
      exact (leading c' inside).1
    · rw [List.mem_singleton.mp isLast]
      exact sound
  · rw [views, List.dropLast_concat] at member
    obtain ⟨c', inside, rfl⟩ := List.mem_map.mp member
    exact (leading c' inside).2

/-- Every accepted line is parsed to a command line that can be built again. -/
theorem pipelineBuild_sound {garbage : Nat → Nat → Option Word} {line : List Char}
    {pipeline : Pipeline} (accepted : pipelineBuild garbage line = some (some pipeline)) :
    pipeline.view.Buildable := by
  simp only [pipelineBuild] at accepted
  cases pipes : parsePipes garbage line with
  | none => simp [pipes] at accepted
  | some result =>
    obtain ⟨n, pipeline'⟩ := result
    simp only [pipes] at accepted
    by_cases failed : n = -1
    · simp [failed] at accepted
    · rw [if_neg failed, Option.some.injEq, Option.some.injEq] at accepted
      subst accepted
      obtain ⟨lastCmdParse, building⟩ := parsePipes_sound pipes failed
      exact building.buildable

/-! ### The length of a line -/

/-- Whitespace at the front of a line can be left out. -/
theorem Written.tail {token : Token} {rest : List Token} {c : Char} {line : List Char}
    (valid : Valid (token :: rest)) (white : c ∈ whitespaceChars)
    (written : Written (token :: rest) (c :: line)) : Written (token :: rest) line := by
  obtain ⟨gap, tail, gapBlank, eq, apart, writtenRest⟩ := written
  cases gap with
  | nil =>
    obtain ⟨c', more, text, notWhite⟩ := token.text_ne_nil valid.head
    rw [text, List.nil_append, List.cons_append, List.cons.injEq] at eq
    exact absurd (eq.1 ▸ white) notWhite
  | cons c' gap =>
    rw [List.cons_append, List.cons.injEq] at eq
    exact ⟨gap, tail, fun x member => gapBlank x (List.mem_cons_of_mem _ member), eq.2, apart,
      writtenRest⟩

/-- Adjacent words take at least two characters each, but for the last. -/
theorem Written.length_words {rest : List Token} (words : List Word) :
    ∀ {line : List Char}, Valid (words.map .word ++ rest) →
      Written (words.map .word ++ rest) line → 2 * words.length ≤ line.length + 1 := by
  induction words with
  | nil => exact fun _ _ => Nat.zero_le _
  | cons w words ih =>
    intro line valid written
    obtain ⟨gap, tail, -, rfl, apart, writtenRest⟩ := written
    have nonempty : 0 < w.length := List.length_pos_iff.mpr (valid w (by simp)).1
    have size : (gap ++ ((Token.word w).text ++ tail)).length =
        gap.length + (w.length + tail.length) := by
      simp [Token.text]
    rw [size, List.length_cons]
    cases words with
    | nil =>
      rw [List.length_nil]
      omega
    | cons w' words =>
      -- the second word is preceded by whitespace
      obtain ⟨c, head, white⟩ := apart rfl ⟨.word w', by simp, rfl⟩
      cases tail with
      | nil => simp at head
      | cons c' tail =>
        obtain rfl : c' = c := by simpa using head
        have shorter := ih valid.tail (Written.tail valid.tail white writtenRest)
        simp only [List.length_cons] at shorter ⊢
        omega

/-- The tokens from some point on are written on an end of the line. -/
theorem Written.suffix {front rest : List Token} {line : List Char}
    (written : Written (front ++ rest) line) :
    ∃ line', Written rest line' ∧ line'.length ≤ line.length := by
  induction front generalizing line with
  | nil => exact ⟨line, written, Nat.le_refl _⟩
  | cons token front ih =>
    obtain ⟨gap, tail, -, rfl, -, writtenRest⟩ := written
    obtain ⟨line', written', shorter⟩ := ih writtenRest
    refine ⟨line', written', Nat.le_trans shorter ?_⟩
    simp only [List.length_append]
    omega

/-- Where the arguments of a command are printed. -/
theorem CommandLine.tokens_split {l : CommandLine} {c : Command} (member : c ∈ l.commands) :
    ∃ front rest, l.tokens = front ++ (c.args.map .word ++ rest) := by
  obtain ⟨commands, background⟩ := l
  cases commands with
  | nil => exact absurd member List.not_mem_nil
  | cons first others =>
    rcases List.mem_cons.mp member with rfl | later
    · exact ⟨[], _, by simp only [CommandLine.tokens, Command.tokens, List.append_assoc]; rfl⟩
    · obtain ⟨before, after, rfl⟩ := List.append_of_mem later
      refine ⟨first.tokens ++ (pipedTokens before ++ [.pipe]),
        redirectTokens .leftAngle c.redirectIn ++ (redirectTokens .rightAngle c.redirectOut ++
          (pipedTokens after ++ if background then [.ampersand] else [])), ?_⟩
      simp only [CommandLine.tokens, pipedTokens, List.flatMap_append, List.flatMap_cons,
        Command.tokens, List.append_assoc, List.cons_append, List.nil_append]

/-! ### The round trip -/

/-- One or more commands, each with one or more arguments; every word has 1 to 32
characters, none of them whitespace, special or NUL. -/
structure CommandLine.WellFormed (l : CommandLine) : Prop where
  nonempty : l.commands ≠ []
  args : ∀ c ∈ l.commands, c.args ≠ []
  words : ∀ c ∈ l.commands, c.Worded

instance (l : CommandLine) : Decidable l.WellFormed :=
  decidable_of_iff (l.commands ≠ [] ∧ (∀ c ∈ l.commands, c.args ≠ []) ∧
    ∀ c ∈ l.commands, c.Worded) ⟨fun ⟨n, a, w⟩ => ⟨n, a, w⟩, fun ⟨n, a, w⟩ => ⟨n, a, w⟩⟩

theorem CommandLine.WellFormed.valid {l : CommandLine} (formed : l.WellFormed) :
    Valid l.tokens := by
  obtain ⟨commands, background⟩ := l
  have ampersand : Valid (if background then [.ampersand] else []) := fun w member => by
    split at member <;> simp at member
  cases commands with
  | nil => exact ampersand
  | cons c rest =>
    have validRest := valid_pipedTokens ampersand fun c' inside =>
      formed.words c' (List.mem_cons_of_mem _ inside)
    have valid := (formed.words c (by simp)).valid validRest
    rwa [← List.append_assoc] at valid

/-- On a line of at most 512 characters no command has too many arguments. -/
theorem CommandLine.WellFormed.buildable {l : CommandLine} (formed : l.WellFormed)
    {line : List Char} (prints : Prints l line) (short : line.length ≤ maxLineLength) :
    l.Buildable := by
  refine ⟨formed.nonempty, fun c member => ?_,
    fun c member => formed.args c (List.dropLast_subset _ member)⟩
  refine ⟨formed.words c member, ?_, fun bare => absurd bare (formed.args c member)⟩
  obtain ⟨front, rest, split⟩ := CommandLine.tokens_split member
  have valid := formed.valid
  rw [Prints, split] at prints
  rw [split] at valid
  obtain ⟨line', written, shorter⟩ := prints.suffix
  have count := Written.length_words c.args
    (fun w inside => valid w (List.mem_append_right _ inside)) written
  have limit : maxLineLength = 512 := rfl
  have limit' : maxArgvLength = 257 := rfl
  omega

/-- Every token after a space. -/
def spaced (tokens : List Token) : List Char := tokens.flatMap fun token => ' ' :: token.text

theorem written_spaced (tokens : List Token) : Written tokens (spaced tokens) := by
  induction tokens with
  | nil => exact blank_nil
  | cons token rest ih =>
    refine ⟨[' '], spaced rest, fun c member => ?_, by simp [spaced], fun _ next => ?_, ih⟩
    · rw [List.mem_singleton.mp member]
      decide
    · obtain ⟨t, head, -⟩ := next
      cases rest with
      | nil => simp at head
      | cons first others => exact ⟨' ', by simp [spaced], by decide⟩

/-- **Round trip.** Every well-formed command line, however it is printed on a line of at most
512 characters, is built again as it is; and what any accepted line is parsed to can be
printed and is built again from every way to print it. -/
theorem pipelineBuild_round_trip :
    (∀ garbage l line, CommandLine.WellFormed l → Prints l line → line.length ≤ maxLineLength →
      ∃ pipeline, pipelineBuild garbage line = some (some pipeline) ∧ pipeline.view = l) ∧
    ∀ garbage line pipeline, pipelineBuild garbage line = some (some pipeline) →
      (∃ printed, Prints pipeline.view printed) ∧
      ∀ garbage' printed, Prints pipeline.view printed →
        ∃ pipeline', pipelineBuild garbage' printed = some (some pipeline') ∧
          pipeline'.view = pipeline.view := by
  constructor
  · intro garbage l line formed prints short
    exact pipelineBuild_prints garbage (formed.buildable prints short) prints
  · intro garbage line pipeline accepted
    exact ⟨⟨_, written_spaced _⟩, fun garbage' printed prints =>
      pipelineBuild_prints garbage' (pipelineBuild_sound accepted) prints⟩

/-- The line `a b <i >o | c &`. -/
def twoCommands : CommandLine where
  commands := [⟨[['a'], ['b']], some ['i'], some ['o']⟩, ⟨[['c']], none, none⟩]
  background := true

/-- A well-formed command line, and a line that ends with a pipe. -/
theorem pipelineBuild_round_trip_two_commands :
    (∃ pipeline, pipelineBuild (fun _ _ => some ['?']) (spaced twoCommands.tokens) =
      some (some pipeline) ∧ pipeline.view = twoCommands) ∧
    ∃ pipeline, pipelineBuild (fun _ _ => some ['?']) [' ', 'a', ' ', '|'] = some (some pipeline) ∧
      pipeline.view = ⟨[⟨[['a']], none, none⟩, ⟨[], none, none⟩], false⟩ := by
  constructor
  · exact pipelineBuild_round_trip.1 _ _ _ (by decide) (written_spaced _) (by decide)
  · exact (pipelineBuild_round_trip.2 (fun _ _ => none) ['a', '|'] _ rfl).2 _ _ (written_spaced _)

end OperatingSys.Shell
