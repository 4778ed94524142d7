import OperatingSys.Shell.Segments

/-!
# Freeing what was parsed

`pipeline_free` trusts that the words of a command end in a NULL. `parse_args` stores one after
the last word, but not if it stops at a word that is too long; after that the array holds what
the memory held before, from the first entry on that has not been stored.
-/

namespace OperatingSys.Shell

/-- The loop of `pipeline_command_free_args` with `left` entries of the array left; the words
that it frees. An entry is read before its place is compared with the end of the array. -/
def freeArgsFrom (entries : Nat → Option Word) : (left arg : Nat) → Option (List Word)
  | 0, _ => none
  | left + 1, arg =>
    match entries arg with
    | none => some []
    | some w => (freeArgsFrom entries left (arg + 1)).map (w :: ·)

def pipelineCommandFreeArgs (command : PipelineCommand) : Option (List Word) :=
  freeArgsFrom command.commandArgs maxArgvLength 0

/-- The loop of `pipeline_free`: what is freed of each command. -/
def freeCommands : List PipelineCommand → Option (List Command)
  | [] => some []
  | command :: rest =>
    match pipelineCommandFreeArgs command with
    | none => none
    | some args =>
      (freeCommands rest).map (⟨args, command.redirectInPath, command.redirectOutPath⟩ :: ·)

def pipelineFree (pipeline : Pipeline) : Option (List Command) := freeCommands pipeline.commands

/-- The words that `parse_args` stores: those before another token or a word that is too long. -/
def storedArgs : List Token → List Word
  | .word w :: rest => if w.length > maxWordLength then [] else w :: storedArgs rest
  | _ => []

/-- However the parse of the line ends, freeing the pipeline frees the words that were stored
for each of its commands, and no others. -/
def FreesStored (garbage : Nat → Nat → Option Word) (line : List Char) : Prop :=
  ∃ ret pipeline freed, parsePipes garbage line = some (ret, pipeline) ∧
    pipelineFree pipeline = some freed ∧
    freed.map (·.args) =
      ((segments (tokensOf line)).take pipeline.commands.length).map storedArgs

/-- A command after which `parse_pipes` takes a pipe. -/
def Complete (segment : List Token) : Prop :=
  ∃ c, readCommand segment = some (c, []) ∧ c.args ≠ []

/-- If a word that is too long comes after other words, the entry after these was NULL. -/
def Tidy (garbage : Nat → Option Word) (segment : List Token) : Prop :=
  ∀ (words : List Word) (long : Word) (rest : List Token),
    segment = words.map .word ++ .word long :: rest → words ≠ [] →
    (∀ w ∈ words, w.length ≤ maxWordLength) → long.length > maxWordLength →
    garbage words.length = none

/-- The segments that the parser comes to are tidy. -/
def ReachedTidy (garbage : Nat → Nat → Option Word) (parts : List (List Token)) : Prop :=
  ∀ front segment back, parts = front ++ segment :: back → (∀ s ∈ front, Complete s) →
    Tidy (garbage front.length) segment

/-! ### One command -/

section Entries

variable {entries : Nat → Option Word}

theorem fillArgs_of_lt {k i : Nat} (below : i < k) (words : List Word) :
    fillArgs entries k words i = entries i := by
  induction words generalizing entries k with
  | nil => rfl
  | cons w rest ih =>
    rw [fillArgs, ih (by omega)]
    exact Function.update_of_ne (by omega) _ _

/-- The NULL could be stored first. -/
theorem storeArgs_eq (k : Nat) (words : List Word) :
    storeArgs entries k words =
      fillArgs (Function.update entries (k + words.length) none) k words := by
  induction words generalizing entries k with
  | nil => rfl
  | cons w rest ih =>
    rw [storeArgs, ih, fillArgs, List.length_cons, Function.update_comm (by omega)]
    congr 3
    omega

/-- The loop frees exactly the words that have been stored if and only if a NULL follows. -/
theorem freeArgsFrom_fillArgs_iff (words : List Word) {left k : Nat} (room : words.length < left) :
    freeArgsFrom (fillArgs entries k words) left k = some words ↔
      entries (k + words.length) = none := by
  induction words generalizing entries left k with
  | nil =>
    obtain ⟨left, rfl⟩ : ∃ m, left = m + 1 := ⟨left - 1, by simp at room; omega⟩
    rw [fillArgs, freeArgsFrom]
    cases here : entries k with
    | none => simp
    | some w => simp
  | cons w rest ih =>
    obtain ⟨left, rfl⟩ : ∃ m, left = m + 1 := ⟨left - 1, by simp at room; omega⟩
    have first : fillArgs (Function.update entries k (some w)) (k + 1) rest k = some w := by
      rw [fillArgs_of_lt (Nat.lt_succ_self k), Function.update_self]
    have later : freeArgsFrom (fillArgs (Function.update entries k (some w)) (k + 1) rest) left
        (k + 1) = some rest ↔ entries (k + (w :: rest).length) = none := by
      rw [ih (by simpa using room), Function.update_of_ne (by omega), List.length_cons,
        Nat.add_assoc, Nat.add_comm 1]
    rw [fillArgs, freeArgsFrom, first, ← later]
    cases freeArgsFrom (fillArgs (Function.update entries k (some w)) (k + 1) rest) left (k + 1) with
    | none => simp
    | some freed => simp

/-- What `parse_args` leaves in the array. -/
def leftArgs (entries : Nat → Option Word) (tokens : List Token) : Nat → Option Word :=
  match readArgs tokens with
  | some (words, _) => storeArgs entries 0 words
  | none => fillArgs entries 0 (storedArgs tokens)

theorem storedArgs_words {rest : List Token} (stops : storedArgs rest = []) {words : List Word}
    (short : ∀ w ∈ words, w.length ≤ maxWordLength) :
    storedArgs (words.map .word ++ rest) = words := by
  induction words with
  | nil => exact stops
  | cons w words ih =>
    have fits : ¬ w.length > maxWordLength := Nat.not_lt.mpr (short w (by simp))
    rw [List.map_cons, List.cons_append, storedArgs, if_neg fits,
      ih fun w' member => short w' (List.mem_cons_of_mem _ member)]

theorem storedArgs_avoids {rest : List Token} (avoids : Avoids rest .word) : storedArgs rest = [] := by
  cases rest with
  | nil => rfl
  | cons t rest =>
    cases t with
    | word w => exact absurd rfl (avoids (.word w) rfl)
    | _ => rfl

theorem storedArgs_long {long : Word} (tooLong : long.length > maxWordLength) (rest : List Token) :
    storedArgs (.word long :: rest) = [] := if_pos tooLong

theorem readArgs_long {long : Word} (tooLong : long.length > maxWordLength) (rest : List Token)
    {words : List Word} (short : ∀ w ∈ words, w.length ≤ maxWordLength) :
    readArgs (words.map .word ++ .word long :: rest) = none := by
  induction words with
  | nil => exact if_pos tooLong
  | cons w words ih =>
    have fits : ¬ w.length > maxWordLength := Nat.not_lt.mpr (short w (by simp))
    rw [List.map_cons, List.cons_append, readArgs, if_neg fits,
      ih fun w' member => short w' (List.mem_cons_of_mem _ member)]
    rfl

theorem commandAlloc_first (garbage : Nat → Option Word) :
    (pipelineCommandAlloc garbage).commandArgs 0 = none := by
  simp [pipelineCommandAlloc]

theorem commandAlloc_later (garbage : Nat → Option Word) {k : Nat} (later : k ≠ 0) :
    (pipelineCommandAlloc garbage).commandArgs k = garbage k := by
  simp [pipelineCommandAlloc, later]

/-- The words before one that is too long are those that are stored. -/
theorem tidy_iff {garbage : Nat → Option Word} {segment : List Token} :
    Tidy garbage segment ↔
      (readArgs segment = none → storedArgs segment ≠ [] →
        garbage (storedArgs segment).length = none) := by
  constructor
  · intro tidy failed nonempty
    rcases readArgs_cases segment with
      ⟨words, rest, -, -, -, read⟩ | ⟨words, long, rest, rfl, short, tooLong, -⟩
    · rw [read] at failed
      simp at failed
    · rw [storedArgs_words (storedArgs_long tooLong rest) short] at nonempty ⊢
      exact tidy words long rest rfl nonempty short tooLong
  · rintro null words long rest rfl nonempty short tooLong
    rw [storedArgs_words (storedArgs_long tooLong rest) short] at null
    exact null (readArgs_long tooLong rest short) nonempty

instance (garbage : Nat → Option Word) (segment : List Token) : Decidable (Tidy garbage segment) :=
  decidable_of_iff _ tidy_iff.symm

/-- For a command over memory with `garbage`: what is freed is what has been stored if and only
if the segment is tidy. -/
theorem freeArgsFrom_leftArgs_iff (garbage : Nat → Option Word) {segment : List Token}
    (roomy : Roomy segment) :
    freeArgsFrom (leftArgs (pipelineCommandAlloc garbage).commandArgs segment) maxArgvLength 0 =
      some (storedArgs segment) ↔ Tidy garbage segment := by
  rw [tidy_iff]
  rcases readArgs_cases segment with
    ⟨words, rest, split, avoids, short, read⟩ | ⟨words, long, rest, split, short, tooLong, read⟩
  · have stored : storedArgs segment = words := by
      rw [split]
      exact storedArgs_words (storedArgs_avoids avoids) short
    rw [leftArgs, read, stored]
    dsimp only
    rw [storeArgs_eq, freeArgsFrom_fillArgs_iff words (roomy [] words rest split)]
    exact iff_of_true (Function.update_self _ _ _) fun failed => by simp at failed
  · have stored : storedArgs segment = words := by
      rw [split]
      exact storedArgs_words (storedArgs_long tooLong rest) short
    rw [leftArgs, read, stored]
    dsimp only
    rw [freeArgsFrom_fillArgs_iff words (roomy [] words _ split), Nat.zero_add]
    by_cases empty : words = []
    · rw [empty]
      exact iff_of_true (commandAlloc_first garbage) fun _ nonempty => absurd rfl nonempty
    · rw [commandAlloc_later garbage (by simpa using empty)]
      exact ⟨fun null _ _ => null, fun null => null rfl empty⟩

end Entries

/-- Whatever comes after the arguments, `parse_command` leaves the array as `parse_args` does. -/
theorem parseCommand_leftArgs (garbage : Nat → Option Word) {tokens : List Token}
    {token token' : List Char} {command : PipelineCommand} {ret : Int} (valid : Valid tokens)
    (roomy : Roomy tokens) (written : Written tokens token)
    (parsed : parseCommand token (pipelineCommandAlloc garbage) = some (ret, token', command)) :
    command.commandArgs = leftArgs (pipelineCommandAlloc garbage).commandArgs tokens := by
  unfold parseCommand at parsed
  rcases parseArgs_reads valid roomy written (pipelineCommandAlloc garbage) with
    ⟨words, rest, token₁, read, room, args, -⟩ |
    ⟨read, words, long, rest, token₁, rfl, short, tooLong, -, args⟩
  · have left : leftArgs (pipelineCommandAlloc garbage).commandArgs tokens =
        storeArgs (pipelineCommandAlloc garbage).commandArgs 0 words := by
      rw [leftArgs, read]
    simp only [args] at parsed
    split at parsed
    · simp only [Option.some.injEq, Prod.mk.injEq] at parsed
      rw [← parsed.2.2, left]
    · split at parsed
      · simp at parsed
      next inRet outRet token₂ command₂ loop =>
        have kept := redirectLoop_sound ⟨rfl, fun p member => by simp [pipelineCommandAlloc] at member,
          fun p member => by simp [pipelineCommandAlloc] at member⟩ loop
        rw [left]
        split at parsed
        all_goals
          simp only [Option.some.injEq, Prod.mk.injEq] at parsed
          exact parsed.2.2 ▸ kept.args
  · simp only [args, Int.reduceNeg, Int.reduceLT, if_true, Option.some.injEq, Prod.mk.injEq] at parsed
    rw [← parsed.2.2, leftArgs, read, storedArgs_words (storedArgs_long tooLong rest) short]

/-! ### The commands of a line -/

instance (segment : List Token) : Decidable (Complete segment) :=
  decidable_of_iff ((readCommand segment).any fun r => r.2 = [] ∧ r.1.args ≠ []) (by
    simp only [Option.any_eq_true, decide_eq_true_eq, Prod.exists, Complete]
    constructor
    · rintro ⟨c, rest, read, rfl, args⟩
      exact ⟨c, read, args⟩
    · rintro ⟨c, read, args⟩
      exact ⟨c, [], read, rfl, args⟩)

/-- What is left in the arrays of the commands that are allocated, from command `j` on: one for
each segment up to the first that is not complete. -/
def allocated (garbage : Nat → Nat → Option Word) (j : Nat) :
    List (List Token) → List (Nat → Option Word)
  | [] => []
  | segment :: parts =>
    leftArgs (pipelineCommandAlloc (garbage j)).commandArgs segment ::
      if Complete segment then allocated garbage (j + 1) parts else []

/-- The same for the commands that are allocated once `previous` has been read. -/
def allocatedAfter (garbage : Nat → Nat → Option Word) (j : Nat) (previous : Command) :
    List Token → List (Nat → Option Word)
  | .pipe :: more => if previous.args = [] then [] else allocated garbage j (segments more)
  | _ => []

theorem allocatedAfter_of_avoids {garbage : Nat → Nat → Option Word} {j : Nat} {previous : Command}
    {tokens : List Token} (avoids : Avoids tokens .pipe) :
    allocatedAfter garbage j previous tokens = [] := by
  cases tokens with
  | nil => rfl
  | cons first rest =>
    cases first with
    | pipe => exact absurd rfl (avoids .pipe rfl)
    | _ => rfl

theorem leftArgs_append (entries : Nat → Option Word) {tail : List Token} (stops : Avoids tail .word)
    (segment : List Token) : leftArgs entries (segment ++ tail) = leftArgs entries segment := by
  rcases readArgs_cases segment with
    ⟨words, rest, -, -, -, read⟩ | ⟨words, long, rest, rfl, short, tooLong, read⟩
  · rw [leftArgs, leftArgs, readArgs_append stops, read]
    rfl
  · rw [leftArgs, leftArgs, readArgs_append stops, read, List.append_assoc, List.cons_append,
      storedArgs_words (storedArgs_long tooLong _) short,
      storedArgs_words (storedArgs_long tooLong _) short]
    rfl

theorem allocated_segments (garbage : Nat → Nat → Option Word) (j : Nat) (tokens : List Token) :
    allocated garbage j (segments tokens) =
      leftArgs (pipelineCommandAlloc (garbage j)).commandArgs tokens ::
        (readCommand tokens).elim [] fun r => allocatedAfter garbage (j + 1) r.1 r.2 := by
  obtain ⟨segment, noPipe, ⟨rfl, split⟩ | ⟨more, rfl, split⟩⟩ := segments_cases tokens
  · rw [split, allocated, allocated, ite_self]
    cases read : readCommand tokens with
    | none => rfl
    | some r =>
      have avoids := avoids_pipe (readCommand_noPipe noPipe read)
      rw [Option.elim_some, allocatedAfter_of_avoids avoids]
  · rw [split, allocated, leftArgs_append _ (ends_pipe more).word, readCommand_append (ends_pipe more)]
    cases read : readCommand segment with
    | none =>
      have stops : ¬ Complete segment := by
        rintro ⟨c, read', -⟩
        simp [read] at read'
      rw [if_neg stops]
      rfl
    | some r =>
      obtain ⟨c, rest⟩ := r
      rw [Option.map_some, Option.elim_some]
      cases rest with
      | nil =>
        rw [List.nil_append, allocatedAfter]
        by_cases empty : c.args = []
        · have stops : ¬ Complete segment := by
            rintro ⟨c', read', args⟩
            rw [read, Option.some.injEq, Prod.mk.injEq] at read'
            exact args (read'.1 ▸ empty)
          rw [if_neg stops, if_pos empty]
        · rw [if_pos ⟨c, read, empty⟩, if_neg empty]
      -- something is left of the segment, and the pipe is not reached
      | cons first rest =>
        have stops : ¬ Complete segment := by
          rintro ⟨c', read', -⟩
          simp [read] at read'
        have avoids : Avoids (first :: rest ++ .pipe :: more) .pipe := by
          intro t head
          exact avoids_pipe (readCommand_noPipe noPipe read) t head
        rw [if_neg stops, allocatedAfter_of_avoids avoids]

section Run

variable (garbage : Nat → Nat → Option Word)

theorem pipesLoop_allocated (rounds : Nat) :
    ∀ (previous : Command) (before : List PipelineCommand) {tokens : List Token}
      {token : List Char}, tokens.length < rounds → Valid tokens → Roomy tokens →
      Written tokens token →
      ∃ ret token' built, pipesLoop garbage rounds token before (if previous.args = [] then 0 else 1) =
          some (ret, token', before ++ built) ∧
        built.map (·.commandArgs) = allocatedAfter garbage before.length previous tokens := by
  -- Induction on the rounds of the loop. Each takes one `|` and one command off the tokens, so
  -- there are rounds enough.
  induction rounds with
  | zero => exact fun _ _ _ _ enough => absurd enough (Nat.not_lt_zero _)
  | succ rounds ih =>
    intro previous before tokens token enough valid roomy written
    by_cases avoids : Avoids tokens .pipe
    · obtain ⟨token', length, type, next, other, -⟩ :=
        nextToken_avoids avoids (by decide) valid written
      refine ⟨(before.length : Int) - 1, token', [], ?_, (allocatedAfter_of_avoids avoids).symm⟩
      simp only [pipesLoop, next, other, if_false, List.append_nil]
    · obtain ⟨rest, rfl⟩ := pipe_of_not_avoids avoids
      obtain ⟨start, next, -, written₁⟩ := nextToken_cons valid written
      have valid₁ : Valid rest := valid.tail
      have roomy₁ : Roomy rest := roomy.tail
      simp only [pipesLoop, next, Token.type, Token.text, if_true, List.drop_left, allocatedAfter]
      -- an empty command before a pipe ends the line, and nothing is allocated for the rest
      by_cases empty : previous.args = []
      · simp only [if_pos empty]
        exact ⟨_, _, [], by rw [List.append_nil]; exact if_pos (by decide), rfl⟩
      simp only [if_neg empty, ne_eq, not_true_eq_false, if_false]
      rw [allocated_segments]
      rcases parseCommand_reads (garbage before.length) valid₁ roomy₁ written₁ with
        ⟨c, rest₂, token₂, command, read, parsed, -, written₂⟩ | ⟨read, token₂, command, parsed⟩
      · have args := parseCommand_leftArgs _ valid₁ roomy₁ written₁ parsed
        obtain ⟨used, rfl, -⟩ := readCommand_consumes read
        simp only [read, parsed, if_neg c.parsed_ne, Option.elim_some]
        obtain ⟨ret, token₃, built, loop, later⟩ := ih c (before ++ [command])
          (by simp only [List.length_cons, List.length_append] at enough; omega) valid₁.of_append
          roomy₁.of_append written₂
        refine ⟨ret, token₃, command :: built, ?_, ?_⟩
        · rw [loop, List.append_assoc]
          rfl
        · rw [List.map_cons, args, later, List.length_append, List.length_singleton]
      · have args := parseCommand_leftArgs _ valid₁ roomy₁ written₁ parsed
        simp only [read, parsed, if_true, Option.elim_none]
        exact ⟨_, _, [command], rfl, by rw [List.map_singleton, args]⟩

theorem parsePipes_allocated {tokens : List Token} {line : List Char} (valid : Valid tokens)
    (roomy : Roomy tokens) (written : Written tokens line) :
    ∃ ret pipeline, parsePipes garbage line = some (ret, pipeline) ∧
      pipeline.commands.map (·.commandArgs) = allocated garbage 0 (segments tokens) := by
  rw [allocated_segments]
  simp only [parsePipes]
  rcases parseCommand_reads (garbage 0) valid roomy written with
    ⟨c, rest, token₁, command, read, parsed, -, written₁⟩ | ⟨read, token₁, command, parsed⟩
  · have args := parseCommand_leftArgs _ valid roomy written parsed
    obtain ⟨used, rfl, -⟩ := readCommand_consumes read
    have enough := written₁.length_le valid.of_append
    obtain ⟨pipeCount, token₂, built, loop, later⟩ := pipesLoop_allocated garbage (token₁.length + 1) c
      [command] (by omega) valid.of_append roomy.of_append written₁
    have commands : ([command] ++ built).map (·.commandArgs) =
        leftArgs (pipelineCommandAlloc (garbage 0)).commandArgs (used ++ rest) ::
          allocatedAfter garbage 1 c rest := by
      rw [List.singleton_append, List.map_cons, args, later]
      rfl
    simp only [parsed, if_neg c.parsed_ne, loop, read, Option.elim_some]
    -- whatever follows the commands, they stay as they are
    split
    · exact ⟨_, _, rfl, commands⟩
    · split
      · exact ⟨_, _, rfl, commands⟩
      · split
        · exact ⟨_, _, rfl, commands⟩
        · exact ⟨_, _, rfl, commands⟩
  · have args := parseCommand_leftArgs _ valid roomy written parsed
    simp only [read, parsed, if_true, Option.elim_none]
    exact ⟨_, _, rfl, by rw [List.map_singleton, args]⟩

end Run

/-! ### Freeing -/

/-- What `pipeline_free` frees, in terms of the arrays. -/
theorem freeCommands_args_iff (commands : List PipelineCommand) (stored : List (List Word)) :
    (∃ freed, freeCommands commands = some freed ∧ freed.map (·.args) = stored) ↔
      (commands.map (·.commandArgs)).map (fun entries => freeArgsFrom entries maxArgvLength 0) =
        stored.map some := by
  induction commands generalizing stored with
  | nil =>
    cases stored with
    | nil => exact iff_of_true ⟨[], rfl, rfl⟩ rfl
    | cons words stored => simp [freeCommands]
  | cons command rest ih =>
    simp only [freeCommands, pipelineCommandFreeArgs, List.map_cons]
    cases args : freeArgsFrom command.commandArgs maxArgvLength 0 with
    | none => cases stored <;> simp
    | some words =>
      cases stored with
      | nil => simp
      | cons words' stored =>
        rw [List.map_cons, List.cons.injEq, Option.some.injEq, ← ih]
        constructor
        · rintro ⟨freed, free, eq⟩
          obtain ⟨others, free', rfl⟩ := Option.map_eq_some_iff.mp free
          rw [List.map_cons, List.cons.injEq] at eq
          exact ⟨eq.1, others, free', eq.2⟩
        · rintro ⟨rfl, others, free, eq⟩
          exact ⟨_, by rw [free]; rfl, by rw [List.map_cons, eq]⟩

theorem reachedTidy_nil (garbage : Nat → Nat → Option Word) : ReachedTidy garbage [] := by
  intro front segment back split
  simp at split

theorem reachedTidy_cons {garbage : Nat → Nat → Option Word} {segment : List Token}
    {parts : List (List Token)} :
    ReachedTidy garbage (segment :: parts) ↔
      Tidy (garbage 0) segment ∧
        (Complete segment → ReachedTidy (fun j => garbage (j + 1)) parts) := by
  constructor
  · intro tidy
    refine ⟨tidy [] segment parts rfl fun s member => absurd member List.not_mem_nil, ?_⟩
    rintro complete front segment' back rfl reached
    refine tidy (segment :: front) segment' back rfl fun s member => ?_
    rcases List.mem_cons.mp member with rfl | later
    · exact complete
    · exact reached s later
  · rintro ⟨first, others⟩ front segment' back split reached
    cases front with
    | nil =>
      obtain ⟨rfl, -⟩ : segment = segment' ∧ parts = back := by simpa using split
      exact first
    | cons s front =>
      obtain ⟨rfl, rfl⟩ : segment = s ∧ parts = front ++ segment' :: back := by simpa using split
      exact others (reached segment (by simp)) front segment' back rfl fun s member =>
        reached s (List.mem_cons_of_mem _ member)

theorem Roomy.segment {tokens segment : List Token} (roomy : Roomy tokens)
    (member : segment ∈ segments tokens) : Roomy segment := by
  obtain ⟨front, back, rfl⟩ := segment_infix member
  rintro front' words rest rfl
  exact roomy (front ++ front') words (rest ++ back) (by simp)

/-- By induction on the segments: a command is freed as it was stored if its segment is tidy,
and there is another command if its segment is complete. -/
theorem allocated_frees_iff (garbage : Nat → Nat → Option Word) {parts : List (List Token)}
    (roomy : ∀ segment ∈ parts, Roomy segment) (j : Nat) :
    (allocated garbage j parts).map (fun entries => freeArgsFrom entries maxArgvLength 0) =
        ((parts.take (allocated garbage j parts).length).map storedArgs).map some ↔
      ReachedTidy (fun i => garbage (j + i)) parts := by
  induction parts generalizing j with
  | nil => exact iff_of_true rfl (reachedTidy_nil _)
  | cons segment parts ih =>
    have first := freeArgsFrom_leftArgs_iff (garbage j) (roomy segment (by simp))
    have shift : (fun i => garbage (j + (i + 1))) = fun i => garbage (j + 1 + i) := by
      funext i
      congr 1
      omega
    rw [reachedTidy_cons, allocated, List.map_cons, List.length_cons, List.take_succ_cons,
      List.map_cons, List.map_cons, List.cons.injEq, first, Nat.add_zero]
    apply and_congr_right
    intro _
    by_cases complete : Complete segment
    · rw [if_pos complete, ih (fun s member => roomy s (List.mem_cons_of_mem _ member)), ← shift]
      exact ⟨fun tidy _ => tidy, fun tidy => tidy complete⟩
    · rw [if_neg complete]
      exact iff_of_true rfl fun contrary => absurd contrary complete

/-- For every line and all contents of the memory: whether the line is accepted or not, freeing
the pipeline frees what was stored and nothing else if and only if no command that the parser
comes to has, after some other words, a word that is too long and an entry in its place that
is not NULL. -/
theorem freesStored_iff (garbage : Nat → Nat → Option Word) {line : List Char}
    (noNul : '\x00' ∉ line) (short : line.length ≤ maxLineLength) :
    FreesStored garbage line ↔ ReachedTidy garbage (segments (tokensOf line)) := by
  obtain ⟨written, valid⟩ := written_tokensOf noNul
  have roomy := written.roomy valid short
  obtain ⟨ret, pipeline, parsed, arrays⟩ := parsePipes_allocated garbage valid roomy written
  have frees := allocated_frees_iff garbage (fun s member => roomy.segment member) 0
  simp only [Nat.zero_add] at frees
  rw [← frees, ← arrays, List.length_map, ← freeCommands_args_iff]
  constructor
  · rintro ⟨ret', pipeline', freed, parsed', free, args⟩
    rw [parsed, Option.some.injEq, Prod.mk.injEq] at parsed'
    obtain ⟨-, rfl⟩ := parsed'
    exact ⟨freed, free, args⟩
  · rintro ⟨freed, free, args⟩
    exact ⟨ret, pipeline, freed, parsed, free, args⟩

/-- The line `a b | c x…x` with 33 letters `x`. -/
def longAfterPipe : List Char :=
  ['a', ' ', 'b', ' ', '|', ' ', 'c', ' '] ++ List.replicate 33 'x' ++ ['\n']

/-- The line is rejected, but there was a NULL after `c`. -/
theorem freesStored_iff_null_after :
    FreesStored (fun j k => if j = 1 ∧ k = 1 then none else some ['?']) longAfterPipe := by
  apply (freesStored_iff _ (by decide) (by decide)).mpr
  have parts : segments (tokensOf longAfterPipe) =
      [[.word ['a'], .word ['b']], [.word ['c'], .word (List.replicate 33 'x')]] := by decide
  rw [parts]
  exact reachedTidy_cons.mpr ⟨by decide, fun _ =>
    reachedTidy_cons.mpr ⟨by decide, fun _ => reachedTidy_nil _⟩⟩

/-- The line `a x…x` with 33 letters `x`. -/
def longArgument : List Char := ['a', ' '] ++ List.replicate 33 'x' ++ ['\n']

set_option maxRecDepth 10000 in
/-- What was in the second entry before is freed like a word, and without any NULL in the array
the loop reads past its end. -/
theorem stale_entry_freed :
    pipelineBuild (fun _ k => if k = 1 then some ['?'] else none) longArgument = some none ∧
      (segments (tokensOf longArgument)).map storedArgs = [[['a']]] ∧
      (parsePipes (fun _ k => if k = 1 then some ['?'] else none) longArgument).bind
        (fun r => pipelineFree r.2) = some [⟨[['a'], ['?']], none, none⟩] ∧
      ¬ FreesStored (fun _ k => if k = 1 then some ['?'] else none) longArgument ∧
      (parsePipes (fun _ _ => some ['?']) longArgument).bind (fun r => pipelineFree r.2) = none := by
  have stored : (segments (tokensOf longArgument)).map storedArgs = [[['a']]] := by decide
  have frees : (parsePipes (fun _ k => if k = 1 then some ['?'] else none) longArgument).bind
      (fun r => pipelineFree r.2) = some [⟨[['a'], ['?']], none, none⟩] := by decide
  refine ⟨rfl, stored, frees, ?_, by decide⟩
  rintro ⟨ret, pipeline, freed, parsed, free, args⟩
  rw [parsed, Option.bind_some, free, Option.some.injEq] at frees
  rw [frees, List.map_take, stored] at args
  generalize pipeline.commands.length = n at args
  cases n with
  | zero => simp at args
  | succ n => simp at args

end OperatingSys.Shell
