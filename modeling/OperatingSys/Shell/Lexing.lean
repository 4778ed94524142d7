import Mathlib.Data.List.Basic
import Mathlib.Logic.Function.Iterate
import OperatingSys.Shell.Reading

/-!
# Lexing a line

`next_token` called again and again, each time behind the token that it found before. The tokens
do not overlap and leave out nothing but whitespace, and written one after the other with a space
between them they are found again.
-/

namespace OperatingSys.Shell

/-! ### Iterating `next_token` -/

/-- The whitespace before the token that comes next. -/
def tokenGap (start : List Char) : List Char := start.take (strspn start whitespaceChars)

def tokenLength (start : List Char) : Nat := (nextToken start).2.1

def tokenType (start : List Char) : TokenType := (nextToken start).2.2

def tokenText (start : List Char) : Word := (nextToken start).1.take (tokenLength start)

/-- The position behind the token that comes next. -/
def afterToken (start : List Char) : List Char := (nextToken start).1.drop (tokenLength start)

/-- The position at which `next_token` is called for token `i` of the line. -/
def position (line : List Char) (i : Nat) : List Char := afterToken^[i] line

/-- What stands before that position. -/
def readBefore (line : List Char) (i : Nat) : List Char :=
  (List.range i).flatMap fun j => tokenGap (position line j) ++ tokenText (position line j)

/-- The texts of the first `n` tokens with one space between two of them. -/
def joined (line : List Char) (n : Nat) : List Char :=
  [' '].intercalate ((List.range n).map fun i => tokenText (position line i))

/-- A character that ends a word. -/
def Separates (c : Char) : Prop := c ∈ whitespaceChars ∨ c ∈ specialChars

/-- The line is made of `n` tokens and of whitespace. -/
structure Partition (line : List Char) (n : Nat) : Prop where
  terminator : nextToken (position line n) = ([], 0, .none)
  tokens : ∀ i < n, tokenType (position line i) ≠ .none
  gaps : ∀ i ≤ n, Blank (tokenGap (position line i))
  whole : line = readBefore line n ++ tokenGap (position line n)
  special : ∀ i < n, tokenType (position line i) ≠ .word →
    tokenLength (position line i) = 1 ∧ ∃ c ∈ specialChars, tokenText (position line i) = [c]
  word : ∀ i < n, tokenType (position line i) = .word → tokenText (position line i) ≠ [] ∧
    ∀ c ∈ tokenText (position line i), ¬ Separates c
  /-- Where a token stands in the line. -/
  place : ∀ i < n, line = (readBefore line i ++ tokenGap (position line i)) ++
    (tokenText (position line i) ++ position line (i + 1))
  /-- A word is not continued on either side. -/
  maximal : ∀ i < n, tokenType (position line i) = .word →
    (∀ c ∈ (readBefore line i ++ tokenGap (position line i)).getLast?, Separates c) ∧
    ∀ c ∈ (position line (i + 1)).head?, Separates c

/-- The same `n` tokens, and then the end. -/
def SameTokens (line line' : List Char) (n : Nat) : Prop :=
  (∀ i < n, tokenType (position line' i) = tokenType (position line i) ∧
    tokenText (position line' i) = tokenText (position line i)) ∧
  tokenType (position line n) = .none ∧ tokenType (position line' n) = .none

/-! ### One token -/

/-- What `next_token` skips, the token and the rest. -/
theorem token_split (start : List Char) :
    start = tokenGap start ++ (tokenText start ++ afterToken start) := by
  rw [tokenText, afterToken, List.take_append_drop, tokenGap]
  exact (List.take_append_drop _ _).symm

theorem blank_tokenGap (start : List Char) : Blank (tokenGap start) := by
  intro c member
  have gap : tokenGap start = start.takeWhile fun c => decide (c ∈ whitespaceChars) :=
    (List.prefix_iff_eq_take.mp (List.takeWhile_prefix _)).symm
  rw [gap] at member
  simpa using List.mem_takeWhile_imp member

theorem position_succ (line : List Char) (i : Nat) :
    position line (i + 1) = afterToken (position line i) :=
  Function.iterate_succ_apply' _ _ _

theorem readBefore_succ (line : List Char) (i : Nat) :
    readBefore line (i + 1) =
      readBefore line i ++ (tokenGap (position line i) ++ tokenText (position line i)) := by
  rw [readBefore, List.range_succ, List.flatMap_append, List.flatMap_singleton]
  rfl

/-- Every position is where what was read before it ends. -/
theorem readBefore_position (line : List Char) (i : Nat) :
    line = readBefore line i ++ position line i := by
  induction i with
  | zero => rfl
  | succ i ih =>
    rw [readBefore_succ, position_succ, List.append_assoc, List.append_assoc, ← token_split, ← ih]

theorem position_noNul {line : List Char} (noNul : '\x00' ∉ line) (i : Nat) :
    '\x00' ∉ position line i := by
  rw [readBefore_position line i] at noNul
  exact fun inside => noNul (List.mem_append_right _ inside)

theorem separates_iff {c : Char} (notNul : c ≠ '\x00') : Separates c ↔ isWordChar c = false := by
  rw [← Bool.not_eq_true, isWordChar_iff, Separates, not_and, not_and]
  constructor
  · rintro (white | special) notWhite notSpecial
    · exact absurd white notWhite
    · exact absurd special notSpecial
  · intro ends
    by_contra neither
    rw [not_or] at neither
    exact ends neither.1 neither.2 notNul

/-- On a line without NUL, what is not the end is a token. -/
theorem token_spec {start : List Char} (noNul : '\x00' ∉ start) (more : tokenType start ≠ .none) :
    ∃ t : Token, Valid [t] ∧ tokenType start = t.type ∧ tokenLength start = t.text.length ∧
      tokenText start = t.text ∧
      (t.type = .word → ∀ c ∈ (afterToken start).head?, Separates c) := by
  rcases nextToken_cases noNul with ⟨-, next⟩ | ⟨gap, t, tail, -, split, valid, next, stops⟩
  · rw [tokenType, next] at more
    exact absurd rfl more
  · have after : afterToken start = tail := by
      simp only [afterToken, tokenLength, next, List.drop_left]
    refine ⟨t, valid, by rw [tokenType, next], by rw [tokenLength, next],
      by simp only [tokenText, tokenLength, next, List.take_left], fun isWord c head => ?_⟩
    rw [after] at head
    refine (separates_iff fun nul => noNul ?_).mpr (stops isWord c head)
    rw [split, ← nul]
    exact List.mem_append_right _ (List.mem_append_right _ (List.mem_of_mem_head? head))

theorem Token.special_text {t : Token} (special : t.type ≠ .word) :
    ∃ c ∈ specialChars, t.text = [c] := by
  cases t with
  | word w => exact absurd rfl special
  | _ => exact ⟨_, by decide, rfl⟩

theorem Token.eq_word {t : Token} (isWord : t.type = .word) : ∃ w, t = .word w := by
  cases t with
  | word w => exact ⟨w, rfl⟩
  | _ => cases isWord

/-- What stands before a word is the start of the line, whitespace or a special character. -/
theorem word_preceded {line : List Char} (noNul : '\x00' ∉ line) {i : Nat}
    (before : ∀ j < i, tokenType (position line j) ≠ .none)
    (isWord : tokenType (position line i) = .word) :
    ∀ c ∈ (readBefore line i ++ tokenGap (position line i)).getLast?, Separates c := by
  intro c last
  have blank := blank_tokenGap (position line i)
  have place := token_split (position line i)
  cases gap : tokenGap (position line i) with
  | cons white more =>
    rw [gap] at last blank
    rw [List.getLast?_append_of_ne_nil _ (by simp)] at last
    exact Or.inl (blank c (List.mem_of_mem_getLast? last))
  | nil =>
    rw [gap] at last place
    rw [List.append_nil] at last
    rw [List.nil_append] at place
    cases i with
    | zero => exact absurd last (by simp [readBefore])
    | succ j =>
      obtain ⟨t, valid, -, -, text, stops⟩ :=
        token_spec (position_noNul noNul j) (before j (Nat.lt_succ_self j))
      obtain ⟨first, others, nonempty, -⟩ := t.text_ne_nil valid
      rw [readBefore_succ, ← List.append_assoc, text,
        List.getLast?_append_of_ne_nil _ (by simp [nonempty])] at last
      by_cases wordBefore : t.type = .word
      -- the word before would go on into this one
      · obtain ⟨t', valid', type', -, text', -⟩ := token_spec (position_noNul noNul (j + 1))
          (by rw [isWord]; decide)
        obtain ⟨w, rfl⟩ := Token.eq_word (type'.symm.trans isWord)
        obtain ⟨nonempty', chars⟩ := valid' w (by simp)
        obtain ⟨c', more, rfl⟩ := List.exists_cons_of_ne_nil nonempty'
        have head : c' ∈ (position line (j + 1)).head? := by
          rw [place, text']
          simp [Token.text]
        rw [position_succ] at head
        have wordChar := isWordChar_iff.mp (chars c' (by simp))
        rcases stops wordBefore c' head with white | special
        · exact absurd white wordChar.1
        · exact absurd special wordChar.2.1
      · obtain ⟨c', special, single⟩ := Token.special_text wordBefore
        rw [single] at last
        obtain rfl : c' = c := by simpa using last
        exact Or.inr special

/-- The tokens up to the end are a partition. -/
theorem partition_of_terminator {line : List Char} (noNul : '\x00' ∉ line) {n : Nat}
    (tokens : ∀ i < n, tokenType (position line i) ≠ .none)
    (terminator : nextToken (position line n) = ([], 0, .none)) : Partition line n where
  terminator := terminator
  tokens := tokens
  gaps i _ := blank_tokenGap _
  whole := by
    -- behind the last token there are only blanks
    have rest : position line n = tokenGap (position line n) := by
      have place := token_split (position line n)
      rwa [tokenText, afterToken, List.take_append_drop, terminator, List.append_nil] at place
    rw [← rest]
    exact readBefore_position line n
  special i inside notWord := by
    obtain ⟨t, -, type, length, text, -⟩ := token_spec (position_noNul noNul i) (tokens i inside)
    rw [type] at notWord
    obtain ⟨c, special, single⟩ := Token.special_text notWord
    rw [length, text, single]
    exact ⟨rfl, c, special, rfl⟩
  word i inside isWord := by
    obtain ⟨t, valid, type, -, text, -⟩ := token_spec (position_noNul noNul i) (tokens i inside)
    obtain ⟨w, rfl⟩ := Token.eq_word (type.symm.trans isWord)
    obtain ⟨nonempty, chars⟩ := valid w (by simp)
    rw [text]
    refine ⟨nonempty, fun c member separates => ?_⟩
    have wordChar := isWordChar_iff.mp (chars c member)
    exact separates.elim wordChar.1 wordChar.2.1
  place i _ := by
    rw [List.append_assoc, position_succ, ← token_split]
    exact readBefore_position line i
  maximal i inside isWord := by
    obtain ⟨t, -, type, -, -, stops⟩ := token_spec (position_noNul noNul i) (tokens i inside)
    refine ⟨word_preceded noNul (fun j earlier => tokens j (by omega)) isWord, ?_⟩
    rw [position_succ]
    exact stops (type.symm.trans isWord)

/-! ### Lexing again -/

/-- On a way to write the tokens, these are found, and then the end. -/
theorem Written.position {tokens : List Token} {line : List Char} (valid : Valid tokens)
    (written : Written tokens line) :
    (∀ i t, tokens[i]? = some t → tokenType (position line i) = t.type ∧
      tokenText (position line i) = t.text) ∧
    nextToken (position line tokens.length) = ([], 0, .none) := by
  induction tokens generalizing line with
  | nil => exact ⟨fun i t entry => by simp at entry, nextToken_nil written⟩
  | cons first rest ih =>
    obtain ⟨tail, next, -, writtenRest⟩ := nextToken_cons valid written
    have after : afterToken line = tail := by
      simp only [afterToken, tokenLength, next, List.drop_left]
    have later (i : Nat) : Shell.position line (i + 1) = Shell.position tail i := by
      rw [← after]
      exact Function.iterate_succ_apply _ _ _
    obtain ⟨found, ends⟩ := ih valid.tail writtenRest
    refine ⟨fun i t entry => ?_, by rw [List.length_cons, later, ends]⟩
    cases i with
    | zero =>
      obtain rfl : first = t := by simpa using entry
      refine ⟨?_, ?_⟩
      · change (nextToken line).2.2 = _
        rw [next]
      · change (nextToken line).1.take (nextToken line).2.1 = _
        rw [next, List.take_left]
    | succ i =>
      rw [later]
      exact found i t (by simpa using entry)

/-- One space is enough to keep words apart. -/
theorem written_intercalate (tokens : List Token) :
    Written tokens ([' '].intercalate (tokens.map Token.text)) := by
  induction tokens with
  | nil => exact blank_nil
  | cons token rest ih =>
    cases rest with
    | nil =>
      exact ⟨[], [], blank_nil, by simp, fun _ another => by simp at another, blank_nil⟩
    | cons next rest =>
      obtain ⟨gap, tail, gapBlank, split, apart, written⟩ := ih
      refine ⟨[], ' ' :: [' '].intercalate ((next :: rest).map Token.text), blank_nil, by simp,
        fun _ _ => ⟨' ', by simp, by decide⟩, ' ' :: gap, tail, fun c member => ?_, by rw [split]; rfl, apart, written⟩
      rcases List.mem_cons.mp member with rfl | inside
      · decide
      · exact gapBlank c inside

/-- **The lexer partitions its input.** Called again and again on a line, `next_token` comes to the
terminator; the line is made of the tokens found until then and of whitespace, and the tokens with
one space between them are lexed to the same tokens. -/
theorem nextToken_partitions {line : List Char} (noNul : '\x00' ∉ line) :
    ∃ n ≤ line.length, Partition line n ∧ SameTokens line (joined line n) n := by
  obtain ⟨written, valid⟩ := written_tokensOf noNul
  obtain ⟨found, ends⟩ := written.position valid
  have texts : joined line (tokensOf line).length =
      [' '].intercalate ((tokensOf line).map Token.text) := by
    refine congrArg _ (List.ext_getElem (by simp) fun i inside _ => ?_)
    rw [List.length_map, List.length_range] at inside
    rw [List.getElem_map, List.getElem_range, List.getElem_map]
    exact (found i _ (List.getElem?_eq_getElem inside)).2
  obtain ⟨foundAgain, endsAgain⟩ := (written_intercalate (tokensOf line)).position valid
  rw [← texts] at foundAgain endsAgain
  refine ⟨(tokensOf line).length, written.length_le valid,
    partition_of_terminator noNul (fun i inside => ?_) ends, fun i inside => ?_, ?_, ?_⟩
  · rw [(found i _ (List.getElem?_eq_getElem inside)).1]
    cases (tokensOf line)[i] <;> exact TokenType.noConfusion
  · obtain ⟨type, text⟩ := found i _ (List.getElem?_eq_getElem inside)
    obtain ⟨typeAgain, textAgain⟩ := foundAgain i _ (List.getElem?_eq_getElem inside)
    exact ⟨typeAgain.trans type.symm, textAgain.trans text.symm⟩
  · rw [tokenType, ends]
  · rw [tokenType, endsAgain]

/-- The line `ls|wc >o`. -/
def closeTokens : List Char := ['l', 's', '|', 'w', 'c', ' ', '>', 'o']

/-- Five tokens, with one space between two of them when they are joined. -/
theorem nextToken_partitions_close :
    (∃ n ≤ closeTokens.length, Partition closeTokens n ∧ SameTokens closeTokens (joined closeTokens n) n) ∧
    tokenType (position closeTokens 5) = .none ∧
    joined closeTokens 5 = ['l', 's', ' ', '|', ' ', 'w', 'c', ' ', '>', ' ', 'o'] :=
  ⟨nextToken_partitions (by decide), by decide, by decide⟩

end OperatingSys.Shell
