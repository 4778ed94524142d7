import Mathlib.Logic.Function.Basic

/-!
# The shell parser (myshell_parser.c)

`pipeline_build` and the functions it calls. A position in the line is the list of characters
from there on; the end of the list, like a NUL in it, is the terminator. A `char` is a `Char`.
Loops count their rounds down from more than they can make. The result `none` stands for a
store outside `command_args`.
-/

namespace OperatingSys.Shell

abbrev Word := List Char

def maxLineLength : Nat := 512

def maxArgvLength : Nat := maxLineLength / 2 + 1

def maxWordLength : Nat := 32

def whitespaceChars : List Char := ['\n', '\t', ' ']

def specialChars : List Char := ['<', '>', '|', '&']

/-- `struct pipeline_command`. The entries of `command_args` are NULL or words; those from
`maxArgvLength` on do not exist. The list of commands stands for the `next` fields. -/
structure PipelineCommand where
  commandArgs : Nat → Option Word
  redirectInPath : Option Word
  redirectOutPath : Option Word

/-- `struct pipeline`. -/
structure Pipeline where
  commands : List PipelineCommand
  isBackground : Bool

/-- `malloc` leaves `garbage` in the entries that are not set. -/
def pipelineCommandAlloc (garbage : Nat → Option Word) : PipelineCommand where
  commandArgs := Function.update garbage 0 none
  redirectInPath := none
  redirectOutPath := none

/-- `enum token_type`. -/
inductive TokenType where
  | none
  | ampersand
  | pipe
  | leftAngle
  | rightAngle
  | word
  deriving DecidableEq

/-! ### The C library -/

def strspn (s accept : List Char) : Nat := (s.takeWhile fun c => c ∈ accept).length

def strcspn (s reject : List Char) : Nat := (s.takeWhile fun c => c ∉ reject ∧ c ≠ '\x00').length

def strndup (s : List Char) (n : Nat) : Word := (s.take n).takeWhile fun c => c ≠ '\x00'

/-! ### Tokens -/

/-- The `switch` of `next_token`: the length and the type of the token that starts here. -/
def tokenAt (token : List Char) : Nat × TokenType :=
  match token with
  | [] => (0, .none)
  | c :: _ =>
    if c = '&' then (1, .ampersand)
    else if c = '|' then (1, .pipe)
    else if c = '<' then (1, .leftAngle)
    else if c = '>' then (1, .rightAngle)
    else if c = '\x00' then (0, .none)
    else (strcspn token (whitespaceChars ++ specialChars), .word)

/-- The position of the token, its length and its type. -/
def nextToken (token : List Char) : List Char × Nat × TokenType :=
  let token := token.drop (strspn token whitespaceChars)
  (token, tokenAt token)

/-- The return value, the position afterwards and `is_background`. -/
def parseBackground (start : List Char) (isBackground : Bool) : Int × List Char × Bool :=
  let (start, tokenLength, tokenType) := nextToken start
  if tokenType ≠ .ampersand then (0, start, isBackground)
  else (1, start.drop tokenLength, true)

/-! ### Commands -/

/-- `parse_redirect_out` and `parse_redirect_in`: the word after `angle` is kept by `keep`. -/
def parseRedirect (angle : TokenType) (keep : PipelineCommand → Word → PipelineCommand)
    (token : List Char) (command : PipelineCommand) : Int × List Char × PipelineCommand :=
  let (token, tokenLength, tokenType) := nextToken token
  if tokenType ≠ angle then (0, token, command)
  else
    let (token, tokenLength, tokenType) := nextToken (token.drop tokenLength)
    if tokenType ≠ .word then (-1, token, command)
    else if tokenLength > maxWordLength then (-1, token, command)
    else (1, token.drop tokenLength, keep command (strndup token tokenLength))

def parseRedirectOut : List Char → PipelineCommand → Int × List Char × PipelineCommand :=
  parseRedirect .rightAngle fun command path => { command with redirectOutPath := some path }

def parseRedirectIn : List Char → PipelineCommand → Int × List Char × PipelineCommand :=
  parseRedirect .leftAngle fun command path => { command with redirectInPath := some path }

/-- `command->command_args[i] = arg`. -/
def PipelineCommand.setArg (command : PipelineCommand) (i : Nat) (arg : Option Word) :
    Option PipelineCommand :=
  if i < maxArgvLength then
    some { command with commandArgs := Function.update command.commandArgs i arg }
  else none

/-- The loop of `parse_args` and what follows it. -/
def parseArgsLoop : (rounds : Nat) → List Char → PipelineCommand → (argCount : Nat) →
    Option (Int × List Char × PipelineCommand)
  | 0, _, _, _ => none
  | rounds + 1, token, command, argCount =>
    let (token, tokenLength, tokenType) := nextToken token
    if tokenType = .word then
      if tokenLength > maxWordLength then some (-1, token, command)
      else
        match command.setArg argCount (some (strndup token tokenLength)) with
        | none => none
        | some command => parseArgsLoop rounds (token.drop tokenLength) command (argCount + 1)
    else
      match command.setArg argCount none with
      | none => none
      | some command => some (argCount, token, command)

def parseArgs (token : List Char) (command : PipelineCommand) :
    Option (Int × List Char × PipelineCommand) :=
  let (token, _, _) := nextToken token
  parseArgsLoop (token.length + 1) token command 0

/-- The `do` loop of `parse_command`: the last two return values. -/
def redirectLoop : (rounds : Nat) → List Char → PipelineCommand →
    Option (Int × Int × List Char × PipelineCommand)
  | 0, _, _ => none
  | rounds + 1, token, command =>
    let (redirectInRet, token, command) := parseRedirectIn token command
    let (redirectOutRet, token, command) := parseRedirectOut token command
    if redirectInRet > 0 ∧ redirectOutRet > 0 then redirectLoop rounds token command
    else some (redirectInRet, redirectOutRet, token, command)

def parseCommand (token : List Char) (command : PipelineCommand) :
    Option (Int × List Char × PipelineCommand) :=
  match parseArgs token command with
  | none => none
  | some (argsParsed, token, command) =>
    if argsParsed < 1 then some (argsParsed, token, command)
    else
      match redirectLoop (token.length + 1) token command with
      | none => none
      | some (redirectInRet, redirectOutRet, token, command) =>
        if redirectInRet = -1 ∨ redirectOutRet = -1 then some (-1, token, command)
        else some (1, token, command)

/-! ### Pipelines -/

/-- The loop of `parse_pipes`; command `k` is allocated over `garbage k`. The return value is -1
or the number of pipes. -/
def pipesLoop (garbage : Nat → Nat → Option Word) : (rounds : Nat) → List Char →
    List PipelineCommand → (lastCmdParse : Int) → Option (Int × List Char × List PipelineCommand)
  | 0, _, _, _ => none
  | rounds + 1, token, commands, lastCmdParse =>
    let (token, tokenLength, tokenType) := nextToken token
    if tokenType = .pipe then
      if lastCmdParse ≠ 1 then some (-1, token, commands)
      else
        match parseCommand (token.drop tokenLength)
            (pipelineCommandAlloc (garbage commands.length)) with
        | none => none
        | some (lastCmdParse, token, command) =>
          if lastCmdParse = -1 then some (-1, token, commands ++ [command])
          else pipesLoop garbage rounds token (commands ++ [command]) lastCmdParse
    else some (commands.length - 1, token, commands)

/-- The return value and the pipeline, whose fields are set as far as parsing got. -/
def parsePipes (garbage : Nat → Nat → Option Word) (token : List Char) : Option (Int × Pipeline) :=
  match parseCommand token (pipelineCommandAlloc (garbage 0)) with
  | none => none
  | some (lastCmdParse, token, command) =>
    if lastCmdParse = -1 then some (-1, { commands := [command], isBackground := false })
    else
      match pipesLoop garbage (token.length + 1) token [command] lastCmdParse with
      | none => none
      | some (pipeCount, token, commands) =>
        if pipeCount = -1 then some (-1, { commands, isBackground := false })
        else
          let (ret, token, isBackground) := parseBackground token false
          if ret = -1 then some (-1, { commands, isBackground })
          else
            let (_, _, tokenType) := nextToken token
            if tokenType ≠ .none then some (-1, { commands, isBackground })
            else some (pipeCount, { commands, isBackground })

/-- `pipeline_build`: the inner `none` is the NULL of a rejected line. -/
def pipelineBuild (garbage : Nat → Nat → Option Word) (commandLine : List Char) :
    Option (Option Pipeline) :=
  match parsePipes garbage commandLine with
  | none => none
  | some (pipesParsed, pipeline) =>
    if pipesParsed = -1 then some none else some (some pipeline)

end OperatingSys.Shell
