import OperatingSys.Shell.RoundTrip

/-!
# Reading a line token by token

The parser peeks at tokens, moves over whitespace without consuming anything and looks at the
same token several times. All of that comes to one pass over the tokens of the line: here is
that pass, and the proof that `pipeline_build` makes of a line what it makes of its tokens.
-/

namespace OperatingSys.Shell

/-! ### The tokens of a line -/

/-- What `next_token` has found, with the text of a word. -/
def Token.ofType (text : Word) : TokenType → Option Token
  | .none => none
  | .ampersand => some .ampersand
  | .pipe => some .pipe
  | .leftAngle => some .leftAngle
  | .rightAngle => some .rightAngle
  | .word => some (.word text)

/-- Iterating `next_token` until `TT_NONE`. -/
def tokensFrom : (rounds : Nat) → List Char → List Token
  | 0, _ => []
  | rounds + 1, line =>
    let (token, tokenLength, tokenType) := nextToken line
    match Token.ofType (strndup token tokenLength) tokenType with
    | none => []
    | some t => t :: tokensFrom rounds (token.drop tokenLength)

def tokensOf (line : List Char) : List Token := tokensFrom (line.length + 1) line

/-- Between the end of a word and the next word there is whitespace. -/
theorem Written.starts_white {tokens : List Token} {line : List Char} (written : Written tokens line)
    (valid : Valid tokens) (stops : ∀ c ∈ line.head?, isWordChar c = false)
    (another : ∃ next ∈ tokens.head?, next.type = .word) :
    ∃ c ∈ line.head?, c ∈ whitespaceChars := by
  obtain ⟨next, head, isWord⟩ := another
  cases tokens with
  | nil => simp at head
  | cons first rest =>
    obtain rfl : first = next := by simpa using head
    obtain ⟨gap, tail, gapBlank, rfl, -, -⟩ := written
    cases gap with
    | cons white gap => exact ⟨white, by simp, gapBlank white (by simp)⟩
    | nil =>
      cases first with
      | word w =>
        obtain ⟨nonempty, chars⟩ := valid w (by simp)
        obtain ⟨c, more, rfl⟩ := List.exists_cons_of_ne_nil nonempty
        have contrary := stops c (by simp [Token.text])
        rw [chars c (by simp)] at contrary
        exact absurd contrary (by decide)
      | _ => exact absurd isWord TokenType.noConfusion

/-- On a line without NUL `next_token` is at the end, or finds a token; a word goes as far as it
can. -/
theorem nextToken_cases {line : List Char} (noNul : '\x00' ∉ line) :
    (Blank line ∧ nextToken line = ([], 0, .none)) ∨
    ∃ (gap : List Char) (t : Token) (tail : List Char), Blank gap ∧ line = gap ++ (t.text ++ tail) ∧
      Valid [t] ∧ nextToken line = (t.text ++ tail, t.text.length, t.type) ∧
      (t.type = .word → ∀ c ∈ tail.head?, isWordChar c = false) := by
  obtain ⟨gap, token, gapBlank, rfl, next, notWhite⟩ := nextToken_split line
  rw [List.mem_append, not_or] at noNul
  cases token with
  | nil =>
    rw [List.append_nil] at next ⊢
    exact Or.inl ⟨gapBlank, next⟩
  | cons c more =>
    right
    have notNul : c ≠ '\x00' := fun eq => noNul.2 (by simp [eq])
    rcases tokenAt_cons more (notWhite c rfl) notNul with
      ⟨t, text, special, found⟩ | ⟨w, tail, split, word, found, stops⟩
    · refine ⟨gap, t, more, gapBlank, by rw [text]; rfl, fun w member => ?_, ?_,
        fun isWord => absurd isWord special⟩
      · rw [← List.mem_singleton.mp member] at special
        exact absurd rfl special
      · rw [next, found, text]
        rfl
    · refine ⟨gap, .word w, tail, gapBlank, by rw [split]; rfl, fun w' member => ?_, ?_,
        fun _ => stops⟩
      · obtain rfl : w' = w := by simpa using member
        exact word
      · rw [next, found, split]
        rfl

/-- A token is what `next_token` has found at its text. -/
theorem Token.ofType_text {t : Token} (valid : Valid [t]) (tail : List Char) :
    Token.ofType (strndup (t.text ++ tail) t.text.length) t.type = some t := by
  cases t with
  | word w => exact congrArg (fun text => some (Token.word text)) (strndup_word (valid w (by simp)) tail)
  | _ => rfl

/-- A line without NUL is a way to write its tokens. -/
theorem written_tokensFrom {rounds : Nat} {line : List Char} (noNul : '\x00' ∉ line)
    (enough : line.length < rounds) :
    Written (tokensFrom rounds line) line ∧ Valid (tokensFrom rounds line) := by
  induction rounds generalizing line with
  | zero => omega
  | succ rounds ih =>
    rcases nextToken_cases noNul with ⟨blank, next⟩ | ⟨gap, t, tail, gapBlank, rfl, valid, next, stops⟩
    · have none_ : tokensFrom (rounds + 1) line = [] := by
        simp only [tokensFrom, next, Token.ofType]
      rw [none_]
      exact ⟨blank, fun w member => absurd member List.not_mem_nil⟩
    · have some_ : tokensFrom (rounds + 1) (gap ++ (t.text ++ tail)) = t :: tokensFrom rounds tail := by
        simp only [tokensFrom, next, Token.ofType_text valid, List.drop_left]
      obtain ⟨c, more, text, -⟩ := t.text_ne_nil valid
      have shorter : tail.length < rounds := by
        simp only [text, List.length_append, List.length_cons] at enough
        omega
      obtain ⟨writtenTail, validTail⟩ := ih
        (fun inside => noNul (List.mem_append_right _ (List.mem_append_right _ inside))) shorter
      rw [some_]
      refine ⟨⟨gap, tail, gapBlank, rfl, fun isWord another =>
        writtenTail.starts_white validTail (stops isWord) another, writtenTail⟩, fun w member => ?_⟩
      rcases List.mem_cons.mp member with here | later
      · exact valid w (List.mem_singleton.mpr here)
      · exact validTail w later

theorem written_tokensOf {line : List Char} (noNul : '\x00' ∉ line) :
    Written (tokensOf line) line ∧ Valid (tokensOf line) :=
  written_tokensFrom noNul (Nat.lt_succ_self _)

/-! ### The parser on tokens -/

/-- `parse_args`: the words up to the first other token; `none` if one of them is too long. -/
def readArgs : List Token → Option (List Word × List Token)
  | .word w :: rest =>
    if w.length > maxWordLength then none
    else (readArgs rest).map fun r => (w :: r.1, r.2)
  | tokens => some ([], tokens)

/-- `parse_redirect_in` and `parse_redirect_out`. -/
def readRedirect (angle : Token) : List Token → Option (Option Word × List Token)
  | [] => some (none, [])
  | first :: rest =>
    if first ≠ angle then some (none, first :: rest)
    else
      match rest with
      | .word path :: rest => if path.length > maxWordLength then none else some (some path, rest)
      | _ => none

theorem Token.eq_of_type_eq {t u : Token} (same : t.type = u.type) (notWord : u.type ≠ .word) :
    t = u := by
  cases t <;> cases u <;> simp_all [Token.type]

/-- A redirect is not there, is there with its path, or lacks a path that can be used. -/
theorem readRedirect_cases {angle : Token} (notWord : angle.type ≠ .word) (tokens : List Token) :
    (Avoids tokens angle.type ∧ readRedirect angle tokens = some (none, tokens)) ∨
    (∃ path rest, tokens = angle :: .word path :: rest ∧ path.length ≤ maxWordLength ∧
      readRedirect angle tokens = some (some path, rest)) ∨
    (∃ rest, tokens = angle :: rest ∧
      (∀ path, .word path ∈ rest.head? → path.length > maxWordLength) ∧
      readRedirect angle tokens = none) := by
  cases tokens with
  | nil => exact Or.inl ⟨fun t head => by simp at head, rfl⟩
  | cons first rest =>
    by_cases other : first = angle
    · subst other
      right
      cases rest with
      | nil =>
        exact Or.inr ⟨[], rfl, fun path head => by simp at head, by simp [readRedirect]⟩
      | cons second rest =>
        cases second with
        | word path =>
          by_cases long : path.length > maxWordLength
          · refine Or.inr ⟨_, rfl, fun path' head => ?_, by simp [readRedirect, long]⟩
            obtain rfl : path = path' := by simpa using head
            exact long
          · exact Or.inl ⟨path, rest, rfl, Nat.not_lt.mp long, by simp [readRedirect, long]⟩
        | _ => exact Or.inr ⟨_, rfl, fun path head => by simp at head, by simp [readRedirect]⟩
    · refine Or.inl ⟨fun t head same => other ?_, by simp [readRedirect, other]⟩
      obtain rfl : first = t := by simpa using head
      exact Token.eq_of_type_eq same notWord

/-- What a redirect is read from. -/
theorem readRedirect_tokens {angle : Token} (notWord : angle.type ≠ .word)
    {tokens rest : List Token} {path : Option Word}
    (read : readRedirect angle tokens = some (path, rest)) :
    tokens = redirectTokens angle path ++ rest := by
  rcases readRedirect_cases notWord tokens with ⟨-, eq⟩ | ⟨path', rest', rfl, -, eq⟩ | ⟨_, -, -, eq⟩
  · rw [eq, Option.some.injEq, Prod.mk.injEq] at read
    rw [← read.1, ← read.2]
    rfl
  · rw [eq, Option.some.injEq, Prod.mk.injEq] at read
    rw [← read.1, ← read.2]
    rfl
  · rw [eq] at read
    simp at read

theorem readRedirect_length {angle : Token} (notWord : angle.type ≠ .word) {tokens rest : List Token}
    {path : Option Word} (read : readRedirect angle tokens = some (path, rest)) :
    rest.length + (if path.isSome then 2 else 0) = tokens.length := by
  rw [readRedirect_tokens notWord read, List.length_append]
  cases path with
  | none => simp [redirectTokens]
  | some p => simp [redirectTokens, Nat.add_comm]

/-- The `do` loop of `parse_command`. -/
def readRedirects (input output : Option Word) (tokens : List Token) :
    Option (Option Word × Option Word × List Token) :=
  match _first : readRedirect .leftAngle tokens with
  | none => none
  | some (inPath, rest) =>
    match _second : readRedirect .rightAngle rest with
    | none => none
    | some (outPath, rest') =>
      if _both : inPath.isSome ∧ outPath.isSome then readRedirects inPath outPath rest'
      else some (inPath <|> input, outPath <|> output, rest')
termination_by tokens.length
decreasing_by
  have length := readRedirect_length (by decide) _first
  have length' := readRedirect_length (by decide) _second
  rw [if_pos _both.1] at length
  omega

/-- One round of the loop. -/
theorem readRedirects_eq (input output : Option Word) (tokens : List Token) :
    readRedirects input output tokens =
      match readRedirect .leftAngle tokens with
      | none => none
      | some (inPath, rest) =>
        match readRedirect .rightAngle rest with
        | none => none
        | some (outPath, rest') =>
          if inPath.isSome ∧ outPath.isSome then readRedirects inPath outPath rest'
          else some (inPath <|> input, outPath <|> output, rest') := by
  rw [readRedirects]
  split
  next first => rw [first]
  next inPath rest first =>
    rw [first]
    dsimp only
    split
    next second => rw [second]
    next outPath rest' second =>
      rw [second]
      rfl

/-- `parse_command`. -/
def readCommand (tokens : List Token) : Option (Command × List Token) :=
  match readArgs tokens with
  | none => none
  | some (words, rest) =>
    if words = [] then some (⟨[], none, none⟩, rest)
    else
      match readRedirects none none rest with
      | none => none
      | some (inPath, outPath, rest) => some (⟨words, inPath, outPath⟩, rest)

/-- The arguments are short words, and what ends them is another token or a word that is too
long. -/
theorem readArgs_cases (tokens : List Token) :
    (∃ (words : List Word) (rest : List Token), tokens = words.map .word ++ rest ∧
      Avoids rest .word ∧ (∀ w ∈ words, w.length ≤ maxWordLength) ∧ readArgs tokens = some (words, rest)) ∨
    (∃ (words : List Word) (long : Word) (rest : List Token),
      tokens = words.map .word ++ .word long :: rest ∧
      (∀ w ∈ words, w.length ≤ maxWordLength) ∧ long.length > maxWordLength ∧
      readArgs tokens = none) := by
  induction tokens with
  | nil => exact Or.inl ⟨[], [], rfl, fun t head => by simp at head, by simp, rfl⟩
  | cons first rest ih =>
    cases first with
    | word w =>
      by_cases long : w.length > maxWordLength
      · exact Or.inr ⟨[], w, rest, rfl, by simp, long, by simp [readArgs, long]⟩
      · have short : ∀ words : List Word, (∀ w' ∈ words, w'.length ≤ maxWordLength) →
            ∀ w' ∈ w :: words, w'.length ≤ maxWordLength := by
          intro words all w' member
          rcases List.mem_cons.mp member with rfl | later
          · exact Nat.not_lt.mp long
          · exact all w' later
        rcases ih with ⟨words, rest', rfl, stops, all, read⟩ | ⟨words, w', rest', rfl, all, long', read⟩
        · exact Or.inl ⟨w :: words, rest', rfl, stops, short words all, by simp [readArgs, long, read]⟩
        · exact Or.inr ⟨w :: words, w', rest', rfl, short words all, long',
            by simp [readArgs, long, read]⟩
    | _ =>
      refine Or.inl ⟨[], _, rfl, fun t head => ?_, by simp, by simp [readArgs]⟩
      obtain rfl := by simpa using head
      decide

/-! ### What is consumed -/

/-- What a command is read from: neither pipes nor ampersands, and a word at the end. -/
structure Plain (used : List Token) : Prop where
  commands : ∀ t ∈ used, t ≠ .pipe ∧ t ≠ .ampersand
  ends : used ≠ [] → ∃ w, used.getLast? = some (.word w)

theorem Plain.nil : Plain [] :=
  ⟨fun _ member => absurd member List.not_mem_nil, fun nonempty => absurd rfl nonempty⟩

theorem Plain.append {used used' : List Token} (plain : Plain used) (plain' : Plain used') :
    Plain (used ++ used') := by
  refine ⟨fun t member => ?_, fun nonempty => ?_⟩
  · exact (List.mem_append.mp member).elim (plain.commands t) (plain'.commands t)
  · by_cases empty : used' = []
    · subst empty
      rw [List.append_nil] at nonempty ⊢
      exact plain.ends nonempty
    · obtain ⟨w, last⟩ := plain'.ends empty
      exact ⟨w, by simp [List.getLast?_append, last]⟩

theorem plain_words (words : List Word) : Plain (words.map .word) := by
  refine ⟨fun t member => ?_, fun nonempty => ?_⟩
  · obtain ⟨w, -, rfl⟩ := List.mem_map.mp member
    exact ⟨Token.noConfusion, Token.noConfusion⟩
  · cases last : words.getLast? with
    | none => simp [List.getLast?_eq_none_iff.mp last] at nonempty
    | some w => exact ⟨w, by simp [List.getLast?_map, last]⟩

theorem plain_redirectTokens {angle : Token} (isAngle : angle = .leftAngle ∨ angle = .rightAngle)
    (path : Option Word) : Plain (redirectTokens angle path) := by
  cases path with
  | none => exact .nil
  | some p =>
    constructor
    · intro t member
      simp only [redirectTokens, List.mem_cons, List.not_mem_nil, or_false] at member
      rcases member with rfl | rfl
      · rcases isAngle with rfl | rfl <;> decide
      · exact ⟨Token.noConfusion, Token.noConfusion⟩
    · exact fun _ => ⟨p, rfl⟩

theorem readRedirect_consumes {angle : Token} (isAngle : angle = .leftAngle ∨ angle = .rightAngle)
    {tokens rest : List Token} {path : Option Word}
    (read : readRedirect angle tokens = some (path, rest)) :
    ∃ used, tokens = used ++ rest ∧ Plain used := by
  have notWord : angle.type ≠ .word := by rcases isAngle with rfl | rfl <;> decide
  exact ⟨_, readRedirect_tokens notWord read, plain_redirectTokens isAngle path⟩

theorem readRedirects_consumes {tokens rest : List Token} {input output inPath outPath : Option Word}
    (read : readRedirects input output tokens = some (inPath, outPath, rest)) :
    ∃ used, tokens = used ++ rest ∧ Plain used := by
  fun_induction readRedirects input output tokens with
  | case1 => simp at read
  | case2 => simp at read
  | case3 input output tokens inPath' rest₁ first outPath' rest₂ second both ih =>
    obtain ⟨used₁, rfl, plain₁⟩ := readRedirect_consumes (Or.inl rfl) first
    obtain ⟨used₂, rfl, plain₂⟩ := readRedirect_consumes (Or.inr rfl) second
    obtain ⟨used₃, rfl, plain₃⟩ := ih read
    exact ⟨used₁ ++ (used₂ ++ used₃), by simp, plain₁.append (plain₂.append plain₃)⟩
  | case4 input output tokens inPath' rest₁ first outPath' rest₂ second both =>
    obtain ⟨used₁, rfl, plain₁⟩ := readRedirect_consumes (Or.inl rfl) first
    obtain ⟨used₂, rfl, plain₂⟩ := readRedirect_consumes (Or.inr rfl) second
    simp only [Option.some.injEq, Prod.mk.injEq] at read
    obtain ⟨-, -, rfl⟩ := read
    exact ⟨used₁ ++ used₂, by simp, plain₁.append plain₂⟩

theorem readCommand_consumes {tokens rest : List Token} {c : Command}
    (read : readCommand tokens = some (c, rest)) :
    ∃ used, tokens = used ++ rest ∧ Plain used ∧ (c.args = [] ↔ used = []) := by
  unfold readCommand at read
  rcases readArgs_cases tokens with ⟨words, rest', rfl, -, -, args⟩ | ⟨_, _, _, -, -, -, args⟩
  · simp only [args] at read
    split at read
    next empty =>
      simp only [Option.some.injEq, Prod.mk.injEq] at read
      obtain ⟨rfl, rfl⟩ := read
      exact ⟨[], by simp [empty], .nil, by simp⟩
    next nonempty =>
      split at read
      · simp at read
      next redirects =>
        simp only [Option.some.injEq, Prod.mk.injEq] at read
        obtain ⟨rfl, rfl⟩ := read
        obtain ⟨used, rfl, plain⟩ := readRedirects_consumes redirects
        exact ⟨words.map .word ++ used, by simp, (plain_words words).append plain, by simp [nonempty]⟩
  · simp [args] at read

/-- The loop of `parse_pipes` after a command. -/
def readPipes (previous : Command) (tokens : List Token) : Option (List Command × List Token) :=
  match tokens with
  | .pipe :: rest =>
    if previous.args = [] then none
    else
      match _next : readCommand rest with
      | none => none
      | some (c, rest') => (readPipes c rest').map fun r => (c :: r.1, r.2)
  | tokens => some ([], tokens)
termination_by tokens.length
decreasing_by
  obtain ⟨used, split, -⟩ := readCommand_consumes _next
  rw [split, List.length_cons, List.length_append]
  omega

theorem readPipes_pipe (previous : Command) (rest : List Token) :
    readPipes previous (.pipe :: rest) =
      if previous.args = [] then none
      else
        match readCommand rest with
        | none => none
        | some (c, rest') => (readPipes c rest').map fun r => (c :: r.1, r.2) := by
  rw [readPipes]
  congr 1
  split
  next next_ => rw [next_]
  next c rest' next_ => rw [next_]

theorem readPipes_of_avoids (previous : Command) {tokens : List Token}
    (avoids : Avoids tokens .pipe) : readPipes previous tokens = some ([], tokens) := by
  rw [readPipes]
  rintro rest rfl
  exact avoids .pipe rfl rfl

/-- The end of the line, with an optional `&` before it. -/
def readEnd : List Token → Option Bool
  | [] => some false
  | [.ampersand] => some true
  | _ => none

theorem readEnd_eq_some {tokens : List Token} {background : Bool} :
    readEnd tokens = some background ↔ tokens = if background then [.ampersand] else [] := by
  constructor
  · intro read
    unfold readEnd at read
    split at read
    · rw [← Option.some.inj read]
      rfl
    · rw [← Option.some.inj read]
      rfl
    · simp at read
  · rintro rfl
    cases background <;> rfl

/-- `pipeline_build`. -/
def readLine (tokens : List Token) : Option CommandLine :=
  match readCommand tokens with
  | none => none
  | some (c, rest) =>
    match readPipes c rest with
    | none => none
    | some (commands, rest) =>
      (readEnd rest).map fun background => ⟨c :: commands, background⟩

/-! ### The parser and its tokens -/

/-- Nowhere too many words in a row. -/
def Roomy (tokens : List Token) : Prop :=
  ∀ (front : List Token) (words : List Word) (rest : List Token),
    tokens = front ++ (words.map .word ++ rest) → words.length < maxArgvLength

theorem Roomy.of_append {front tokens : List Token} (roomy : Roomy (front ++ tokens)) :
    Roomy tokens := by
  rintro front' words rest rfl
  exact roomy (front ++ front') words rest (by simp)

theorem Roomy.tail {token : Token} {rest : List Token} (roomy : Roomy (token :: rest)) :
    Roomy rest := Roomy.of_append (show Roomy ([token] ++ rest) from roomy)

theorem Valid.of_append {front tokens : List Token} (valid : Valid (front ++ tokens)) :
    Valid tokens := fun w member => valid w (List.mem_append_right _ member)

theorem Written.roomy {tokens : List Token} {line : List Char} (written : Written tokens line)
    (valid : Valid tokens) (short : line.length ≤ maxLineLength) : Roomy tokens := by
  rintro front words rest rfl
  obtain ⟨line', written', shorter⟩ := written.suffix
  have count := Written.length_words words valid.of_append written'
  have limit : maxLineLength = 512 := rfl
  have limit' : maxArgvLength = 257 := rfl
  omega

/-- A word that is too long ends `parse_args`, and no NULL is stored. -/
theorem parseArgsLoop_long {long : Word} {rest : List Token} (tooLong : long.length > maxWordLength)
    (words : List Word) :
    ∀ (rounds k : Nat) (token : List Char) (command : PipelineCommand), words.length < rounds →
      Valid (words.map .word ++ .word long :: rest) → (∀ w ∈ words, w.length ≤ maxWordLength) →
      k + words.length < maxArgvLength → Written (words.map .word ++ .word long :: rest) token →
      ∃ token', parseArgsLoop rounds token command k = some (-1, token',
        { command with commandArgs := fillArgs command.commandArgs k words }) := by
  induction words with
  | nil =>
    intro rounds k token command enough valid short room written
    obtain ⟨rounds, rfl⟩ : ∃ m, rounds = m + 1 := ⟨rounds - 1, by simp at enough; omega⟩
    obtain ⟨tail, next, -, -⟩ := nextToken_cons valid written
    refine ⟨long ++ tail, ?_⟩
    simp only [parseArgsLoop, next, Token.text, Token.type, if_true, tooLong, fillArgs]
  | cons w words ih =>
    intro rounds k token command enough valid short room written
    obtain ⟨rounds, rfl⟩ : ∃ m, rounds = m + 1 := ⟨rounds - 1, by simp at enough; omega⟩
    rw [List.length_cons] at enough room
    obtain ⟨tail, next, -, written'⟩ := nextToken_cons valid written
    obtain ⟨token', loop⟩ := ih rounds (k + 1) tail
      { command with commandArgs := Function.update command.commandArgs k (some w) }
      (by omega) valid.tail (fun w' member => short w' (List.mem_cons_of_mem _ member)) (by omega)
      written'
    have fits : ¬ w.length > maxWordLength := Nat.not_lt.mpr (short w (by simp))
    refine ⟨token', ?_⟩
    simp only [parseArgsLoop, next, Token.text, Token.type, if_true, fits, if_false,
      strndup_word (valid w (by simp)), setArg_of_lt (show k < maxArgvLength by omega),
      List.drop_left, loop, fillArgs]

/-- `parse_args` on a line with these tokens. -/
theorem parseArgs_reads {tokens : List Token} {token : List Char} (valid : Valid tokens)
    (roomy : Roomy tokens) (written : Written tokens token) (command : PipelineCommand) :
    (∃ words rest token', readArgs tokens = some (words, rest) ∧ words.length < maxArgvLength ∧
      parseArgs token command = some ((words.length : Int), token',
        { command with commandArgs := storeArgs command.commandArgs 0 words }) ∧
      Written rest token') ∨
    (readArgs tokens = none ∧ ∃ words long rest token',
      tokens = words.map .word ++ .word long :: rest ∧ (∀ w ∈ words, w.length ≤ maxWordLength) ∧
      long.length > maxWordLength ∧ words.length + 1 < maxArgvLength ∧
      parseArgs token command = some (-1, token',
        { command with commandArgs := fillArgs command.commandArgs 0 words })) := by
  obtain ⟨start, length, type, next, writtenStart⟩ := nextToken_written valid written
  have enough := writtenStart.length_le valid
  rcases readArgs_cases tokens with
    ⟨words, rest, rfl, stops, short, read⟩ | ⟨words, long, rest, rfl, short, tooLong, read⟩
  · have room := roomy [] words rest rfl
    rw [List.length_append, List.length_map] at enough
    obtain ⟨token', loop, written'⟩ := parseArgsLoop_written stops words (start.length + 1) 0 start
      command (by omega) valid short (by omega) writtenStart
    refine Or.inl ⟨words, rest, token', read, room, ?_, written'⟩
    rw [Nat.zero_add] at loop
    simp only [parseArgs, next, loop]
  · have room := roomy [] (words ++ [long]) rest (by simp)
    rw [List.length_append, List.length_singleton] at room
    rw [List.length_append, List.length_map] at enough
    obtain ⟨token', loop⟩ := parseArgsLoop_long tooLong words (start.length + 1) 0 start
      command (by omega) valid short (by omega) writtenStart
    exact Or.inr ⟨read, words, long, rest, token', rfl, short, tooLong, room, by
      simp only [parseArgs, next, loop]⟩

/-- `parse_redirect_in` or `parse_redirect_out` on a line with these tokens. -/
theorem parseRedirect_reads (angle : Token) (notWord : angle.type ≠ .word)
    (keep : PipelineCommand → Word → PipelineCommand) {tokens : List Token} {token : List Char}
    (valid : Valid tokens) (written : Written tokens token) (command : PipelineCommand) :
    (∃ path rest token', readRedirect angle tokens = some (path, rest) ∧
      parseRedirect angle.type keep token command =
        (if path.isSome then 1 else 0, token', path.elim command (keep command)) ∧
      Written rest token') ∨
    (readRedirect angle tokens = none ∧
      ∃ token', parseRedirect angle.type keep token command = (-1, token', command)) := by
  have notNone : angle.type ≠ .none := by cases angle <;> exact TokenType.noConfusion
  rcases readRedirect_cases notWord tokens with
    ⟨avoids, read⟩ | ⟨path, rest, rfl, short, read⟩ | ⟨rest, rfl, unusable, read⟩
  · obtain ⟨token', parsed, written'⟩ :=
      parseRedirect_absent angle keep command notNone avoids valid written
    exact Or.inl ⟨none, tokens, token', read, parsed, written'⟩
  · obtain ⟨token', parsed, written'⟩ := parseRedirect_present angle keep command valid short written
    exact Or.inl ⟨some path, rest, token', read, parsed, written'⟩
  · refine Or.inr ⟨read, ?_⟩
    obtain ⟨tail, next, -, written'⟩ := nextToken_cons valid written
    cases rest with
    | nil =>
      refine ⟨[], ?_⟩
      simp only [parseRedirect, next, List.drop_left, nextToken_nil written', ne_eq,
        not_true_eq_false, if_false]
      rfl
    | cons second rest =>
      obtain ⟨tail', next', -, -⟩ := nextToken_cons valid.tail written'
      refine ⟨second.text ++ tail', ?_⟩
      simp only [parseRedirect, next, List.drop_left, next', ne_eq, not_true_eq_false, if_false]
      cases second with
      | word path => simp [Token.type, Token.text, unusable path rfl]
      | _ => rfl

/-- The `do` loop of `parse_command` on a line with these tokens. -/
theorem redirectLoop_reads (rounds : Nat) :
    ∀ (command : PipelineCommand) {tokens : List Token} {token : List Char},
      tokens.length < rounds → Valid tokens → Written tokens token →
      (∃ inPath outPath rest inRet outRet token',
        readRedirects command.redirectInPath command.redirectOutPath tokens =
          some (inPath, outPath, rest) ∧
        redirectLoop rounds token command = some (inRet, outRet, token',
          { command with redirectInPath := inPath, redirectOutPath := outPath }) ∧
        ¬ (inRet = -1 ∨ outRet = -1) ∧ Written rest token') ∨
      (readRedirects command.redirectInPath command.redirectOutPath tokens = none ∧
        ∃ inRet outRet token' command',
          redirectLoop rounds token command = some (inRet, outRet, token', command') ∧
          (inRet = -1 ∨ outRet = -1)) := by
  induction rounds with
  | zero => exact fun _ _ _ enough => absurd enough (Nat.not_lt_zero _)
  | succ rounds ih =>
    intro command tokens token enough valid written
    rw [readRedirects_eq]
    simp only [redirectLoop, parseRedirectIn, parseRedirectOut]
    rcases parseRedirect_reads .leftAngle (by decide)
      (fun command path => { command with redirectInPath := some path }) valid written command with
      ⟨inPath, rest₁, token₁, read₁, parsed₁, written₁⟩ | ⟨read₁, token₁, parsed₁⟩
    · change parseRedirect .leftAngle _ _ _ = _ at parsed₁
      obtain ⟨used₁, split₁, -⟩ := readRedirect_consumes (Or.inl rfl) read₁
      have valid₁ : Valid rest₁ := by
        rw [split₁] at valid
        exact valid.of_append
      rcases parseRedirect_reads .rightAngle (by decide)
        (fun command path => { command with redirectOutPath := some path }) valid₁ written₁
        (inPath.elim command fun path => { command with redirectInPath := some path }) with
        ⟨outPath, rest₂, token₂, read₂, parsed₂, written₂⟩ | ⟨read₂, token₂, parsed₂⟩
      · change parseRedirect .rightAngle _ _ _ = _ at parsed₂
        simp only [parsed₁, parsed₂, read₁, read₂]
        -- what the two calls store, whichever of the redirects are there
        have stored : outPath.elim
            (inPath.elim command fun path => { command with redirectInPath := some path })
            (fun path => { (inPath.elim command fun path => { command with redirectInPath := some path })
              with redirectOutPath := some path }) =
            { command with
              redirectInPath := inPath <|> command.redirectInPath
              redirectOutPath := outPath <|> command.redirectOutPath } := by
          cases inPath <;> cases outPath <;> rfl
        rw [stored]
        by_cases both : inPath.isSome ∧ outPath.isSome
        · have shorter : rest₂.length < rounds := by
            have length₁ := readRedirect_length (by decide) read₁
            have length₂ := readRedirect_length (by decide) read₂
            rw [if_pos both.1] at length₁
            omega
          obtain ⟨used₂, split₂, -⟩ := readRedirect_consumes (Or.inr rfl) read₂
          have valid₂ : Valid rest₂ := by
            rw [split₂] at valid₁
            exact valid₁.of_append
          obtain ⟨p, rfl⟩ := Option.isSome_iff_exists.mp both.1
          obtain ⟨p', rfl⟩ := Option.isSome_iff_exists.mp both.2
          exact ih { command with redirectInPath := some p, redirectOutPath := some p' }
            shorter valid₂ written₂
        · rw [if_neg both]
          refine Or.inl ⟨_, _, _, _, _, token₂, rfl, if_neg fun positive => both ?_, ?_, written₂⟩
          · cases inPath <;> cases outPath <;> simp_all
          · cases inPath <;> cases outPath <;> simp
      · change parseRedirect .rightAngle _ _ _ = _ at parsed₂
        simp only [parsed₁, parsed₂, read₁, read₂]
        exact Or.inr ⟨trivial, _, _, _, _, if_neg fun positive => absurd positive.2 (by decide), Or.inr rfl⟩
    · change parseRedirect .leftAngle _ _ _ = _ at parsed₁
      simp only [parsed₁, read₁]
      exact Or.inr ⟨trivial, _, _, _, _, if_neg fun positive => absurd positive.1 (by decide), Or.inl rfl⟩

/-- `parse_command` on a line with these tokens. -/
theorem parseCommand_reads (garbage : Nat → Option Word) {tokens : List Token} {token : List Char}
    (valid : Valid tokens) (roomy : Roomy tokens) (written : Written tokens token) :
    (∃ c rest token' command, readCommand tokens = some (c, rest) ∧
      parseCommand token (pipelineCommandAlloc garbage) =
        some (if c.args = [] then 0 else 1, token', command) ∧ command.view = c ∧
      Written rest token') ∨
    (readCommand tokens = none ∧ ∃ token' command,
      parseCommand token (pipelineCommandAlloc garbage) = some (-1, token', command)) := by
  -- the parts in the order of the source: the arguments, and if there are any the redirects
  simp only [readCommand, parseCommand]
  rcases parseArgs_reads valid roomy written (pipelineCommandAlloc garbage) with
    ⟨words, rest₁, token₁, read₁, room, parsed₁, written₁⟩ |
    ⟨read₁, words, long, rest₁, token₁, -, -, -, -, parsed₁⟩
  · simp only [read₁, parsed₁]
    have view := view_storeArgs (pipelineCommandAlloc garbage) room
    by_cases empty : words = []
    · subst empty
      exact Or.inl ⟨_, _, token₁, _, rfl, if_pos (by decide), view, written₁⟩
    · have some_ : ¬ ((words.length : Int) < 1) := by
        have := List.length_pos_iff.mpr empty
        omega
      simp only [if_neg empty, if_neg some_]
      -- what the arguments leave of the line is a line again
      have valid₁ : Valid rest₁ := by
        obtain ⟨words', rest', rfl, -, -, read⟩ | ⟨_, _, _, -, -, -, read⟩ := readArgs_cases tokens
        · rw [read, Option.some.injEq, Prod.mk.injEq] at read₁
          exact read₁.2 ▸ valid.of_append
        · rw [read] at read₁
          exact absurd read₁ (by simp)
      have enough := written₁.length_le valid₁
      rcases redirectLoop_reads (token₁.length + 1) { pipelineCommandAlloc garbage with
          commandArgs := storeArgs (pipelineCommandAlloc garbage).commandArgs 0 words }
          (by omega) valid₁ written₁ with
        ⟨inPath, outPath, rest₂, inRet, outRet, token₂, read₂, loop, fine, written₂⟩ |
        ⟨read₂, inRet, outRet, token₂, command₂, loop, failed⟩
      · change readRedirects none none rest₁ = _ at read₂
        simp only [read₂, loop, if_neg fine]
        refine Or.inl ⟨_, _, token₂, _, rfl, by rw [if_neg empty], ?_, written₂⟩
        exact view_storeArgs { pipelineCommandAlloc garbage with
          redirectInPath := inPath, redirectOutPath := outPath } room
      · change readRedirects none none rest₁ = _ at read₂
        simp only [read₂, loop, if_pos failed]
        exact Or.inr ⟨trivial, token₂, command₂, rfl⟩
  · simp only [read₁, parsed₁]
    exact Or.inr ⟨trivial, token₁, _, if_pos (by decide)⟩

theorem pipe_of_not_avoids {tokens : List Token} (pipe : ¬ Avoids tokens .pipe) :
    ∃ rest, tokens = .pipe :: rest := by
  cases tokens with
  | nil => exact absurd (fun t head => by simp at head) pipe
  | cons first rest =>
    refine ⟨rest, congrArg (· :: rest) ?_⟩
    by_contra other
    refine pipe fun t head same => other ?_
    obtain rfl : first = t := by simpa using head
    exact Token.eq_of_type_eq same (by decide)

/-- The loop of `parse_pipes` on a line with these tokens. -/
theorem pipesLoop_reads (garbage : Nat → Nat → Option Word) (rounds : Nat) :
    ∀ (previous : Command) (before : List PipelineCommand) {tokens : List Token}
      {token : List Char}, tokens.length < rounds → Valid tokens → Roomy tokens →
      Written tokens token → before ≠ [] →
      (∃ commands rest pipeCount token' built, readPipes previous tokens = some (commands, rest) ∧
        pipesLoop garbage rounds token before (if previous.args = [] then 0 else 1) =
          some (pipeCount, token', before ++ built) ∧
        pipeCount ≠ -1 ∧ built.map PipelineCommand.view = commands ∧ Valid rest ∧
        Written rest token') ∨
      (readPipes previous tokens = none ∧ ∃ token' built,
        pipesLoop garbage rounds token before (if previous.args = [] then 0 else 1) =
          some (-1, token', built)) := by
  induction rounds with
  | zero => exact fun _ _ _ _ enough => absurd enough (Nat.not_lt_zero _)
  | succ rounds ih =>
    intro previous before tokens token enough valid roomy written nonempty
    by_cases avoids : Avoids tokens .pipe
    -- no pipe follows: the loop ends and returns the number of pipes
    · obtain ⟨token', length, type, next, other, written'⟩ :=
        nextToken_avoids avoids (by decide) valid written
      have positive := List.length_pos_iff.mpr nonempty
      refine Or.inl ⟨[], tokens, (before.length : Int) - 1, token', [],
        readPipes_of_avoids previous avoids, ?_, by omega, rfl, valid, written'⟩
      simp only [pipesLoop, next, other, if_false, List.append_nil]
    · obtain ⟨rest, rfl⟩ := pipe_of_not_avoids avoids
      rw [readPipes_pipe]
      obtain ⟨start, next, -, written₁⟩ := nextToken_cons valid written
      have valid₁ : Valid rest := valid.tail
      have roomy₁ : Roomy rest := roomy.tail
      simp only [pipesLoop, next, Token.type, Token.text, if_true, List.drop_left]
      by_cases empty : previous.args = []
      · simp only [if_pos empty]
        exact Or.inr ⟨trivial, _, _, if_pos (by decide)⟩
      simp only [if_neg empty, ne_eq, not_true_eq_false, if_false]
      rcases parseCommand_reads (garbage before.length) valid₁ roomy₁ written₁ with
        ⟨c, rest₂, token₂, command, read, parsed, view, written₂⟩ | ⟨read, token₂, command, parsed⟩
      · obtain ⟨used, rfl, -⟩ := readCommand_consumes read
        simp only [read, parsed, if_neg c.parsed_ne]
        rcases ih c (before ++ [command])
          (by simp only [List.length_cons, List.length_append] at enough; omega) valid₁.of_append
          roomy₁.of_append written₂ (by simp) with
          ⟨commands, rest₃, pipeCount, token₃, built, readRest, loop, fine, views, valid₃, written₃⟩ |
          ⟨readRest, token₃, built, loop⟩
        · refine Or.inl ⟨c :: commands, rest₃, pipeCount, token₃, command :: built, ?_, ?_, fine, ?_,
            valid₃, written₃⟩
          · rw [readRest, Option.map_some]
          · rw [loop, List.append_assoc]
            rfl
          · rw [List.map_cons, view, views]
        · exact Or.inr ⟨by rw [readRest, Option.map_none], token₃, built, loop⟩
      · simp only [read, parsed]
        exact Or.inr ⟨trivial, _, _, if_pos trivial⟩

/-- After the commands: an optional `&`, and then the end of the line or not. -/
theorem parseBackground_reads {tokens : List Token} {token : List Char} (valid : Valid tokens)
    (written : Written tokens token) :
    (∃ background ret token', readEnd tokens = some background ∧
      parseBackground token false = (ret, token', background) ∧ ret ≠ -1 ∧ Written [] token') ∨
    (readEnd tokens = none ∧ ∃ ret token' background first rest,
      parseBackground token false = (ret, token', background) ∧ Valid (first :: rest) ∧
        Written (first :: rest) token') := by
  cases tokens with
  | nil =>
    obtain ⟨ret, token', found⟩ := parseBackground_written false written
    exact Or.inl ⟨false, ret, token', rfl, found⟩
  | cons first rest =>
    by_cases ampersand : first = .ampersand
    · subst ampersand
      cases rest with
      | nil =>
        obtain ⟨ret, token', found⟩ := parseBackground_written true written
        exact Or.inl ⟨true, ret, token', rfl, found⟩
      | cons second rest =>
        obtain ⟨tail, next, -, written'⟩ := nextToken_cons valid written
        refine Or.inr ⟨rfl, 1, tail, true, second, rest, ?_, valid.tail, written'⟩
        simp only [parseBackground, next, Token.text, Token.type, ne_eq, not_true_eq_false, if_false,
          List.drop_left]
    · obtain ⟨tail, next, again, -⟩ := nextToken_cons valid written
      refine Or.inr ⟨?_, 0, _, false, first, rest, ?_, valid, again⟩
      · cases first <;> simp_all [readEnd]
      · have other : first.type ≠ .ampersand := fun same =>
          ampersand (Token.eq_of_type_eq (u := .ampersand) same (by decide))
        simp only [parseBackground, next, ne_eq, other, not_false_eq_true, if_true]

/-- **Only the tokens matter.** What `pipeline_build` makes of a line is what is read from its
tokens. -/
theorem pipelineBuild_reads (garbage : Nat → Nat → Option Word) {tokens : List Token}
    {line : List Char} (valid : Valid tokens) (roomy : Roomy tokens) (written : Written tokens line) :
    (pipelineBuild garbage line).map (Option.map Pipeline.view) = some (readLine tokens) := by
  simp only [pipelineBuild, parsePipes, readLine]
  rcases parseCommand_reads (garbage 0) valid roomy written with
    ⟨c, rest₁, token₁, command, read, parsed, view, written₁⟩ | ⟨read, token₁, command, parsed⟩
  · obtain ⟨used, rfl, -⟩ := readCommand_consumes read
    have enough := written₁.length_le valid.of_append
    simp only [read, parsed, if_neg c.parsed_ne]
    rcases pipesLoop_reads garbage (token₁.length + 1) c [command] (by omega)
      valid.of_append roomy.of_append written₁ (by simp) with
      ⟨commands, rest₂, pipeCount, token₂, built, readRest, loop, fine, views, valid₂, written₂⟩ |
      ⟨readRest, token₂, built, loop⟩
    · simp only [readRest, loop, if_neg fine]
      rcases parseBackground_reads valid₂ written₂ with
        ⟨background, ret, token₃, ends, found, fine', written₃⟩ |
        ⟨ends, ret, token₃, background, first, rest₃, found, valid₃, written₃⟩
      · simp only [ends, found, if_neg fine', nextToken_nil written₃, ne_eq, not_true_eq_false,
          if_false, if_neg fine, Option.map_some]
        rw [Pipeline.view, List.map_append, List.map_singleton, view, views]
        rfl
      -- what is left on the line is an error
      · obtain ⟨tail, next, -, -⟩ := nextToken_cons valid₃ written₃
        have more : first.type ≠ .none := by cases first <;> exact TokenType.noConfusion
        simp only [ends, found, next, if_pos more, ite_self]
        rfl
    · simp only [readRest, loop]
      rfl
  · simp only [read, parsed]
    rfl

end OperatingSys.Shell
