import Mathlib.Data.List.TakeWhile
import OperatingSys.Shell.Parser

/-!
# Lines and their tokens

A line is a sequence of tokens with any amount of whitespace around them, and at least some
between two words. On such a line `next_token` finds the tokens one after the other.
-/

namespace OperatingSys.Shell

inductive Token where
  | ampersand
  | pipe
  | leftAngle
  | rightAngle
  | word (text : Word)
  deriving DecidableEq

namespace Token

def text : Token → Word
  | .ampersand => ['&']
  | .pipe => ['|']
  | .leftAngle => ['<']
  | .rightAngle => ['>']
  | .word text => text

def type : Token → TokenType
  | .ampersand => .ampersand
  | .pipe => .pipe
  | .leftAngle => .leftAngle
  | .rightAngle => .rightAngle
  | .word _ => .word

end Token

/-- A character that can stand in a word. -/
def isWordChar (c : Char) : Bool := c ∉ whitespaceChars ++ specialChars ∧ c ≠ '\x00'

/-- The text of a word. -/
def IsWord (w : Word) : Prop := w ≠ [] ∧ ∀ c ∈ w, isWordChar c = true

instance (w : Word) : Decidable (IsWord w) :=
  decidable_of_iff (w ≠ [] ∧ w.all isWordChar = true) (by rw [List.all_eq_true]; rfl)

def Blank (gap : List Char) : Prop := ∀ c ∈ gap, c ∈ whitespaceChars

theorem blank_nil : Blank [] := fun _ member => absurd member List.not_mem_nil

/-- Two words are not written together: what follows the first begins with whitespace. -/
def Apart (token : Token) (rest : List Token) (tail : List Char) : Prop :=
  token.type = .word → (∃ next ∈ rest.head?, next.type = .word) →
    ∃ c ∈ tail.head?, c ∈ whitespaceChars

/-- The line is a way to write the tokens. -/
def Written : List Token → List Char → Prop
  | [], line => Blank line
  | token :: rest, line =>
    ∃ gap tail, Blank gap ∧ line = gap ++ (token.text ++ tail) ∧ Apart token rest tail ∧
      Written rest tail

/-- The words among the tokens are words. -/
def Valid (tokens : List Token) : Prop := ∀ w, .word w ∈ tokens → IsWord w

section Characters

variable {c : Char}

theorem isWordChar_iff : isWordChar c = true ↔
    c ∉ whitespaceChars ∧ c ∉ specialChars ∧ c ≠ '\x00' := by
  simp only [isWordChar, List.mem_append, not_or, decide_eq_true_eq, and_assoc]

theorem Token.text_ne_nil {token : Token} (valid : Valid [token]) :
    ∃ c rest, token.text = c :: rest ∧ c ∉ whitespaceChars := by
  cases token with
  | word w =>
    obtain ⟨nonempty, chars⟩ := valid w (by simp)
    obtain ⟨c, rest, rfl⟩ := List.exists_cons_of_ne_nil nonempty
    exact ⟨c, rest, rfl, (isWordChar_iff.mp (chars c (by simp))).1⟩
  | _ => exact ⟨_, _, rfl, by decide⟩

end Characters

theorem Valid.head {token : Token} {rest : List Token} (valid : Valid (token :: rest)) :
    Valid [token] := fun w member => valid w (by simp_all)

theorem Valid.tail {token : Token} {rest : List Token} (valid : Valid (token :: rest)) :
    Valid rest := fun w member => valid w (List.mem_cons_of_mem _ member)

/-- What follows a word ends it. -/
theorem Apart.stops {w : Word} {rest : List Token} {tail : List Char}
    (apart : Apart (.word w) rest tail) (valid : Valid rest) (written : Written rest tail) :
    ∀ c ∈ tail.head?, isWordChar c = false := by
  intro c head
  have blank : c ∈ whitespaceChars → isWordChar c = false := fun white => by
    simp [isWordChar, white]
  -- after a word comes the end, a blank, or a special character: two words are kept apart
  cases rest with
  | nil => exact blank (written c (List.mem_of_mem_head? head))
  | cons token rest =>
    obtain ⟨gap, tail', gapBlank, rfl, -, -⟩ := written
    cases gap with
    | cons white _ =>
      obtain rfl : white = c := by simpa using head
      exact blank (gapBlank white (by simp))
    | nil =>
      cases token with
      | word w' =>
        obtain ⟨c', head', white⟩ := apart rfl ⟨.word w', by simp, rfl⟩
        obtain rfl : c' = c := Option.mem_unique head' head
        exact blank white
      | _ =>
        obtain rfl := by simpa [Token.text] using head
        decide

/-- The whitespace that `next_token` skips. -/
theorem nextToken_split (line : List Char) :
    ∃ gap token, Blank gap ∧ line = gap ++ token ∧ nextToken line = (token, tokenAt token) ∧
      ∀ c ∈ token.head?, c ∉ whitespaceChars := by
  refine ⟨line.takeWhile fun c => decide (c ∈ whitespaceChars),
    line.dropWhile fun c => decide (c ∈ whitespaceChars), fun c member => ?_,
    List.takeWhile_append_dropWhile.symm, ?_, fun c head => ?_⟩
  · simpa using List.mem_takeWhile_imp member
  · have drop : (line.takeWhile (fun c => decide (c ∈ whitespaceChars)) ++
        line.dropWhile fun c => decide (c ∈ whitespaceChars)).drop (strspn line whitespaceChars) =
        line.dropWhile fun c => decide (c ∈ whitespaceChars) := List.drop_left
    rw [List.takeWhile_append_dropWhile] at drop
    simp only [nextToken, drop]
  · have first := List.head?_dropWhile_not (fun c => decide (c ∈ whitespaceChars)) line
    rw [Option.mem_def.mp head] at first
    simpa using first

/-- The token that starts with `c` is a special character, or a word that goes as far as it
can. -/
theorem tokenAt_cons {c : Char} (more : List Char) (notWhite : c ∉ whitespaceChars)
    (notNul : c ≠ '\x00') :
    (∃ t : Token, t.text = [c] ∧ t.type ≠ .word ∧ tokenAt (c :: more) = (1, t.type)) ∨
    ∃ w tail, c :: more = w ++ tail ∧ IsWord w ∧ tokenAt (c :: more) = (w.length, .word) ∧
      ∀ c' ∈ tail.head?, isWordChar c' = false := by
  by_cases ampersand : c = '&'
  · subst ampersand
    exact Or.inl ⟨.ampersand, rfl, by decide, rfl⟩
  by_cases pipe : c = '|'
  · subst pipe
    exact Or.inl ⟨.pipe, rfl, by decide, rfl⟩
  by_cases left : c = '<'
  · subst left
    exact Or.inl ⟨.leftAngle, rfl, by decide, rfl⟩
  by_cases right : c = '>'
  · subst right
    exact Or.inl ⟨.rightAngle, rfl, by decide, rfl⟩
  right
  have first : isWordChar c = true := by
    refine isWordChar_iff.mpr ⟨notWhite, ?_, notNul⟩
    simp [specialChars, ampersand, pipe, left, right]
  refine ⟨(c :: more).takeWhile isWordChar, (c :: more).dropWhile isWordChar,
    List.takeWhile_append_dropWhile.symm, ⟨?_, fun c' member => List.mem_takeWhile_imp member⟩, ?_,
    fun c' head => ?_⟩
  · simp [List.takeWhile_cons_of_pos first]
  · simp only [tokenAt, ampersand, pipe, left, right, notNul, if_false]
    rfl
  · have stops := List.head?_dropWhile_not isWordChar (c :: more)
    rw [Option.mem_def.mp head] at stops
    simpa using stops

/-- The token at its start. -/
theorem tokenAt_text {token : Token} {rest : List Token} {tail : List Char}
    (valid : Valid (token :: rest)) (apart : Apart token rest tail) (written : Written rest tail) :
    tokenAt (token.text ++ tail) = (token.text.length, token.type) := by
  cases token with
  | word w =>
    obtain ⟨nonempty, chars⟩ := valid w (by simp)
    have stops := apart.stops valid.tail written
    -- `strcspn` stops at the end of the word and not before
    have length : strcspn (w ++ tail) (whitespaceChars ++ specialChars) = w.length := by
      change ((w ++ tail).takeWhile isWordChar).length = w.length
      rw [List.takeWhile_append_of_pos chars]
      cases tail with
      | nil => simp
      | cons c tail =>
        rw [List.takeWhile_cons_of_neg (by simp [stops c (by simp)]), List.append_nil]
    obtain ⟨c, more, rfl⟩ := List.exists_cons_of_ne_nil nonempty
    obtain ⟨-, notSpecial, notNul⟩ := isWordChar_iff.mp (chars c (by simp))
    simp only [specialChars, List.mem_cons, List.not_mem_nil, or_false, not_or] at notSpecial
    simp only [tokenAt, Token.text, Token.type, List.cons_append, notSpecial, notNul, if_false]
    rw [← List.cons_append, length]
  | _ => rfl

/-- `next_token` before the token that comes next. -/
theorem nextToken_cons {token : Token} {rest : List Token} {line : List Char}
    (valid : Valid (token :: rest)) (written : Written (token :: rest) line) :
    ∃ tail, nextToken line = (token.text ++ tail, token.text.length, token.type) ∧
      Written (token :: rest) (token.text ++ tail) ∧ Written rest tail := by
  obtain ⟨gap, tail, gapBlank, rfl, apart, writtenRest⟩ := written
  obtain ⟨c, more, text, notWhite⟩ := token.text_ne_nil valid.head
  have span : strspn (gap ++ (token.text ++ tail)) whitespaceChars = gap.length := by
    rw [strspn, List.takeWhile_append_of_pos (fun c member => by simpa using gapBlank c member),
      text, List.cons_append, List.takeWhile_cons_of_neg (by simpa using notWhite), List.append_nil]
  refine ⟨tail, ?_, ⟨[], tail, blank_nil, rfl, apart, writtenRest⟩, writtenRest⟩
  simp only [nextToken]
  rw [span, List.drop_left, tokenAt_text valid apart writtenRest]

theorem nextToken_nil {line : List Char} (written : Written [] line) :
    nextToken line = ([], 0, .none) := by
  have all : line.takeWhile (fun c => decide (c ∈ whitespaceChars)) = line := by
    rw [List.takeWhile_eq_self_iff]
    intro c member
    simpa using written c member
  simp only [nextToken, strspn, all, List.drop_length]
  rfl

end OperatingSys.Shell
