import OperatingSys.Shell.Freeing

/-!
# The room for arguments

`parse_args` compares no index with the length of `command_args`. Here are the indices that it
writes, and the positions that it is called at; on a line of at most 512 characters there is
room for all that is written.
-/

namespace OperatingSys.Shell

/-- The indices of `command_args` that the loop of `parse_args` and what follows it write. -/
def argIndicesFrom : (rounds : Nat) → List Char → (argCount : Nat) → List Nat
  | 0, _, _ => []
  | rounds + 1, token, argCount =>
    let (token, tokenLength, tokenType) := nextToken token
    if tokenType = .word then
      if tokenLength > maxWordLength then []
      else argCount :: argIndicesFrom rounds (token.drop tokenLength) (argCount + 1)
    else [argCount]

def argIndices (token : List Char) : List Nat :=
  let (token, _, _) := nextToken token
  argIndicesFrom (token.length + 1) token 0

/-- The positions at which the loop of `parse_pipes` has `parse_args` called. -/
def pipeStarts (garbage : Nat → Nat → Option Word) : (rounds : Nat) → List Char →
    (count : Nat) → (lastCmdParse : Int) → List (List Char)
  | 0, _, _, _ => []
  | rounds + 1, token, count, lastCmdParse =>
    let (token, tokenLength, tokenType) := nextToken token
    if tokenType = .pipe then
      if lastCmdParse ≠ 1 then []
      else
        token.drop tokenLength ::
          match parseCommand (token.drop tokenLength) (pipelineCommandAlloc (garbage count)) with
          | none => []
          | some (lastCmdParse, token, _) =>
            if lastCmdParse = -1 then []
            else pipeStarts garbage rounds token (count + 1) lastCmdParse
    else []

/-- The positions at which `parse_pipes` has `parse_args` called, one for each command. -/
def commandStarts (garbage : Nat → Nat → Option Word) (token : List Char) : List (List Char) :=
  token ::
    match parseCommand token (pipelineCommandAlloc (garbage 0)) with
    | none => []
    | some (lastCmdParse, token, _) =>
      if lastCmdParse = -1 then []
      else pipeStarts garbage (token.length + 1) token 1 lastCmdParse

/-! ### One call -/

/-- A word takes `*token` forward. -/
theorem nextToken_shorter {line token : List Char} {length : Nat}
    (next : nextToken line = (token, length, .word)) :
    (token.drop length).length < line.length := by
  obtain ⟨word, size⟩ := nextToken_word next
  have positive : 0 < (strndup token length).length := List.length_pos_iff.mpr word.1
  have copied : (strndup token length).length ≤ token.length :=
    Nat.le_trans (List.takeWhile_sublist _).length_le (List.length_take_le' _ _)
  have skipped : token.length ≤ line.length := by
    obtain rfl : (nextToken line).1 = token := congrArg Prod.fst next
    exact (List.drop_suffix _ _).length_le
  rw [List.length_drop]
  omega

theorem parseArgsLoop_isSome_iff (rounds : Nat) :
    ∀ {token : List Char} (command : PipelineCommand) (k : Nat), token.length < rounds →
      ((parseArgsLoop rounds token command k).isSome ↔
        ∀ i ∈ argIndicesFrom rounds token k, i < maxArgvLength) := by
  induction rounds with
  | zero => exact fun _ _ enough => absurd enough (Nat.not_lt_zero _)
  | succ rounds ih =>
    intro token command k enough
    obtain ⟨start, length, type, next⟩ : ∃ start length type,
        nextToken token = (start, length, type) := ⟨_, _, _, rfl⟩
    have stored (arg : Option Word) : command.setArg k arg = none ↔ ¬ k < maxArgvLength := by
      simp [PipelineCommand.setArg]
    simp only [parseArgsLoop, argIndicesFrom, next]
    by_cases isWord : type = .word
    · subst isWord
      simp only [if_true]
      by_cases long : length > maxWordLength
      · simp [long]
      · have shorter := nextToken_shorter next
        by_cases room : k < maxArgvLength
        · simp only [if_neg long, setArg_of_lt room, List.forall_mem_cons, room, true_and]
          exact ih _ _ (by omega)
        · simp [long, (stored _).mpr room, room]
    · by_cases room : k < maxArgvLength
      · simp [isWord, setArg_of_lt room, room]
      · simp [isWord, (stored _).mpr room, room]

/-- `parse_args` returns exactly if every index that it writes is one of the array. -/
theorem parseArgs_isSome_iff (token : List Char) (command : PipelineCommand) :
    (parseArgs token command).isSome ↔ ∀ i ∈ argIndices token, i < maxArgvLength :=
  parseArgsLoop_isSome_iff _ command 0 (Nat.lt_succ_self _)

/-- At an index there are as many words before it. -/
theorem mem_argIndicesFrom {rounds i : Nat} {tokens : List Token} {token : List Char} {k : Nat}
    (valid : Valid tokens) (written : Written tokens token)
    (member : i ∈ argIndicesFrom rounds token k) :
    ∃ (words : List Word) (rest : List Token), tokens = words.map .word ++ rest ∧
      i = k + words.length := by
  induction rounds generalizing tokens token k with
  | zero => exact absurd member List.not_mem_nil
  | succ rounds ih =>
    cases tokens with
    | nil =>
      simp only [argIndicesFrom, nextToken_nil written, reduceCtorEq, if_false,
        List.mem_singleton] at member
      exact ⟨[], [], rfl, member⟩
    | cons first rest =>
      obtain ⟨tail, next, -, writtenRest⟩ := nextToken_cons valid written
      simp only [argIndicesFrom, next, List.drop_left] at member
      cases first with
      | word w =>
        simp only [Token.type, if_true] at member
        split at member
        · exact absurd member List.not_mem_nil
        · rcases List.mem_cons.mp member with here | later
          · exact ⟨[], _, rfl, here⟩
          · obtain ⟨words, rest', rfl, index⟩ := ih valid.tail writtenRest later
            exact ⟨w :: words, rest', rfl, by rw [List.length_cons]; omega⟩
      | _ =>
        simp only [Token.type, reduceCtorEq, if_false, List.mem_singleton] at member
        exact ⟨[], _, rfl, member⟩

/-- Where there is room for the words in a row, there is for all that `parse_args` writes. -/
theorem Roomy.argIndices {tokens : List Token} {token : List Char} (roomy : Roomy tokens)
    (valid : Valid tokens) (written : Written tokens token) :
    ∀ i ∈ argIndices token, i < maxArgvLength := by
  intro i member
  obtain ⟨start, length, type, next, writtenStart⟩ := nextToken_written valid written
  simp only [Shell.argIndices, next] at member
  obtain ⟨words, rest, split, rfl⟩ := mem_argIndicesFrom valid writtenStart member
  rw [Nat.zero_add]
  exact roomy [] words rest split

/-! ### All calls -/

theorem pipeStarts_roomy (garbage : Nat → Nat → Option Word) (rounds : Nat) :
    ∀ (count : Nat) (lastCmdParse : Int) {tokens : List Token} {token : List Char},
      Valid tokens → Roomy tokens → Written tokens token →
      ∀ start ∈ pipeStarts garbage rounds token count lastCmdParse,
        ∀ i ∈ argIndices start, i < maxArgvLength := by
  induction rounds with
  | zero => exact fun _ _ _ _ _ _ _ _ member => absurd member List.not_mem_nil
  | succ rounds ih =>
    intro count lastCmdParse tokens token valid roomy written start member
    by_cases avoids : Avoids tokens .pipe
    · obtain ⟨token', length, type, next, other, -⟩ :=
        nextToken_avoids avoids (by decide) valid written
      simp only [pipeStarts, next, other, if_false] at member
      exact absurd member List.not_mem_nil
    · obtain ⟨rest, rfl⟩ := pipe_of_not_avoids avoids
      obtain ⟨tail, next, -, written₁⟩ := nextToken_cons valid written
      have valid₁ : Valid rest := valid.tail
      have roomy₁ : Roomy rest := roomy.tail
      simp only [pipeStarts, next, Token.type, if_true, List.drop_left] at member
      split at member
      · exact absurd member List.not_mem_nil
      rcases List.mem_cons.mp member with rfl | later
      · exact roomy₁.argIndices valid₁ written₁
      -- the next command is parsed from where this one ends
      rcases parseCommand_reads (garbage count) valid₁ roomy₁ written₁ with
        ⟨c, rest₂, token₂, command, read, parsed, -, written₂⟩ | ⟨-, token₂, command, parsed⟩
      · obtain ⟨used, rfl, -⟩ := readCommand_consumes read
        simp only [parsed, if_neg c.parsed_ne] at later
        exact ih _ _ valid₁.of_append roomy₁.of_append written₂ start later
      · simp only [parsed, if_true] at later
        exact absurd later List.not_mem_nil

theorem commandStarts_roomy (garbage : Nat → Nat → Option Word) {tokens : List Token}
    {line : List Char} (valid : Valid tokens) (roomy : Roomy tokens) (written : Written tokens line) :
    ∀ start ∈ commandStarts garbage line, ∀ i ∈ argIndices start, i < maxArgvLength := by
  intro start member
  rcases List.mem_cons.mp member with rfl | later
  · exact roomy.argIndices valid written
  rcases parseCommand_reads (garbage 0) valid roomy written with
    ⟨c, rest, token, command, read, parsed, -, written₁⟩ | ⟨-, token, command, parsed⟩
  · obtain ⟨used, rfl, -⟩ := readCommand_consumes read
    simp only [parsed, if_neg c.parsed_ne] at later
    exact pipeStarts_roomy garbage _ _ _ valid.of_append roomy.of_append written₁ start later
  · simp only [parsed, if_true] at later
    exact absurd later List.not_mem_nil

/-- There is one call for each command that the loop of `parse_pipes` allocates. -/
theorem pipesLoop_length {garbage : Nat → Nat → Option Word} {rounds : Nat} {token token' : List Char}
    {commands commands' : List PipelineCommand} {lastCmdParse n : Int}
    (parsed : pipesLoop garbage rounds token commands lastCmdParse = some (n, token', commands')) :
    commands'.length =
      commands.length + (pipeStarts garbage rounds token commands.length lastCmdParse).length := by
  -- Induction on the rounds. The loop and the list of its calls take the same branches: the line
  -- ends, the command before was empty, the new command fails, or the loop goes on.
  induction rounds generalizing token commands lastCmdParse with
  | zero => simp [pipesLoop] at parsed
  | succ rounds ih =>
    obtain ⟨start, length, type, next⟩ : ∃ start length type,
        nextToken token = (start, length, type) := ⟨_, _, _, rfl⟩
    simp only [pipesLoop, next] at parsed
    simp only [pipeStarts, next]
    by_cases pipe : type = .pipe
    · simp only [if_pos pipe] at parsed ⊢
      by_cases last : lastCmdParse ≠ 1
      · simp only [if_pos last, Option.some.injEq, Prod.mk.injEq] at parsed
        rw [if_pos last, ← parsed.2.2]
        rfl
      · simp only [if_neg last] at parsed ⊢
        cases command : parseCommand (start.drop length)
            (pipelineCommandAlloc (garbage commands.length)) with
        | none => simp [command] at parsed
        | some result =>
          obtain ⟨ret, token₁, added⟩ := result
          simp only [command] at parsed ⊢
          by_cases failed : ret = -1
          · simp only [if_pos failed, Option.some.injEq, Prod.mk.injEq] at parsed
            rw [if_pos failed, ← parsed.2.2, List.length_append]
            rfl
          · simp only [if_neg failed] at parsed ⊢
            have later := ih parsed
            rw [List.length_append, List.length_singleton] at later
            rw [later, List.length_cons]
            omega
    · simp only [if_neg pipe, Option.some.injEq, Prod.mk.injEq] at parsed
      rw [if_neg pipe, ← parsed.2.2]
      rfl

theorem parsePipes_length {garbage : Nat → Nat → Option Word} {line : List Char} {ret : Int}
    {pipeline : Pipeline} (parsed : parsePipes garbage line = some (ret, pipeline)) :
    pipeline.commands.length = (commandStarts garbage line).length := by
  simp only [parsePipes] at parsed
  simp only [commandStarts]
  cases first : parseCommand line (pipelineCommandAlloc (garbage 0)) with
  | none => simp [first] at parsed
  | some result =>
    obtain ⟨lastCmdParse, token, command⟩ := result
    simp only [first] at parsed ⊢
    by_cases failed : lastCmdParse = -1
    · simp only [if_pos failed, Option.some.injEq, Prod.mk.injEq] at parsed
      rw [if_pos failed, ← parsed.2]
      rfl
    · simp only [if_neg failed] at parsed ⊢
      cases loop : pipesLoop garbage (token.length + 1) token [command] lastCmdParse with
      | none => simp [loop] at parsed
      | some result =>
        obtain ⟨pipeCount, token', commands⟩ := result
        have length := pipesLoop_length loop
        have kept : pipeline.commands = commands := by
          simp only [loop] at parsed
          -- what follows the commands only sets `is_background`
          repeat' split at parsed
          all_goals
            rw [Option.some.injEq, Prod.mk.injEq] at parsed
            rw [← parsed.2]
        rw [kept, length, List.length_cons]
        exact Nat.add_comm _ _

/-- **The arguments have room.** Whatever the memory held before: for every command that is parsed
from a line of at most 512 characters, each index that `parse_args` writes, that of the NULL among
them, is one of the 257 of `command_args`; and so the parse goes through to its end. -/
theorem parseArgs_inBounds (garbage : Nat → Nat → Option Word) {line : List Char}
    (noNul : '\x00' ∉ line) (short : line.length ≤ maxLineLength) :
    (∀ start ∈ commandStarts garbage line, ∀ i ∈ argIndices start, i < maxArgvLength) ∧
    ∃ ret pipeline, parsePipes garbage line = some (ret, pipeline) ∧
      pipeline.commands.length = (commandStarts garbage line).length := by
  obtain ⟨written, valid⟩ := written_tokensOf noNul
  have roomy := written.roomy valid short
  refine ⟨commandStarts_roomy garbage valid roomy written, ?_⟩
  obtain ⟨ret, pipeline, parsed, -⟩ := parsePipes_allocated garbage valid roomy written
  exact ⟨ret, pipeline, parsed, parsePipes_length parsed⟩

/-- As many words as a line can hold: 256 words of one character each. -/
def fullLine : List Char := [' '].intercalate (List.replicate 256 ['a'])

/-- On this line the NULL takes the last index there is. -/
theorem parseArgs_inBounds_full :
    256 ∈ argIndices fullLine ∧ (∀ i ∈ argIndices fullLine, i < maxArgvLength) ∧
    ∃ ret pipeline, parsePipes (fun _ _ => some ['?']) fullLine = some (ret, pipeline) ∧
      pipeline.commands.length = 1 := by
  obtain ⟨bounds, ret, pipeline, parsed, count⟩ :=
    parseArgs_inBounds (fun _ _ => some ['?']) (show '\x00' ∉ fullLine by decide +kernel)
      (by decide +kernel)
  refine ⟨by decide +kernel, bounds fullLine List.mem_cons_self, ret, pipeline, parsed, ?_⟩
  rw [count]
  decide +kernel

end OperatingSys.Shell
