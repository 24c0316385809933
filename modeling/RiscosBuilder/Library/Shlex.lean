import Mathlib.Data.List.TakeWhile

/-!
# Shell-like words

`shlex.shlex(text, posix=True, punctuation_chars=...)` of Python 3 with
`whitespace_split` set and all else left at its default, character by character
as its `read_token` goes.
-/

namespace RiscosBuilder.Library.Shlex

def whitespace : List Char := [' ', '\t', '\r', '\n']

def commenters : List Char := ['#']

def quotes : List Char := ['\'', '"']

def escape : List Char := ['\\']

def escapedquotes : List Char := ['"']

/--
The state of a lexer.  `escaped` remembers the quotes it is to return to, and
`comment` stands for a `readline` that is under way.
-/
inductive Mode where
  | space
  | word
  | punctuation
  | quoted (quote : Char)
  | escaped (back : Option Char)
  | comment
  deriving DecidableEq, Repr

/-- The texts of the two exceptions; `unfinished` is none of Python's. -/
inductive Failure where
  | noClosingQuotation
  | noEscapedCharacter
  | unfinished
  deriving DecidableEq, Repr

/-- The token that `read_token` returns; `None` is the end of the text. -/
def result (token : List Char) (quoted : Bool) : Option (List Char) :=
  if quoted = false ∧ token = [] then none else some token

/-- What `readline` leaves. -/
def skipLine (text : List Char) : List Char :=
  (text.dropWhile (· ≠ '\n')).drop 1

/-- `token` with the character behind a backslash. -/
def unescape (back : Option Char) (token : List Char) (char : Char) :
    List Char :=
  if back ≠ none ∧ char ∉ escape ∧ back ≠ some char then token ++ ['\\', char]
  else token ++ [char]

/--
`read_token`, with the state, the token so far and `quoted`: the token and what
is left of the text.  A character that is pushed back is left as well.
-/
def readToken (punct : List Char) :
    List Char → Mode → List Char → Bool →
      Except Failure (Option (List Char) × List Char)
  | [], .quoted _, _, _ => .error .noClosingQuotation
  | [], .escaped _, _, _ => .error .noEscapedCharacter
  | [], _, token, quoted => .ok (result token quoted, [])
  | char :: rest, .space, token, quoted =>
      if char ∈ whitespace then
        if token ≠ [] ∨ quoted = true then .ok (result token quoted, rest)
        else readToken punct rest .space token quoted
      else if char ∈ commenters then readToken punct rest .comment token quoted
      else if char ∈ escape then readToken punct rest (.escaped none) token quoted
      else if char ∈ punct then readToken punct rest .punctuation [char] quoted
      else if char ∈ quotes then readToken punct rest (.quoted char) token quoted
      -- A character of `wordchars`, or any other because of `whitespace_split`.
      else readToken punct rest .word [char] quoted
  | char :: rest, .comment, token, quoted =>
      readToken punct rest (if char = '\n' then .space else .comment) token quoted
  | char :: rest, .quoted quote, token, _ =>
      if char = quote then readToken punct rest .word token true
      else if char ∈ escape ∧ quote ∈ escapedquotes then
        readToken punct rest (.escaped (some quote)) token true
      else readToken punct rest (.quoted quote) (token ++ [char]) true
  | char :: rest, .escaped back, token, quoted =>
      readToken punct rest (back.elim .word .quoted) (unescape back token char)
        quoted
  | char :: rest, .word, token, quoted =>
      if char ∈ whitespace then
        if token ≠ [] ∨ quoted = true then .ok (result token quoted, rest)
        else readToken punct rest .space token quoted
      else if char ∈ commenters then
        if token ≠ [] ∨ quoted = true then
          .ok (result token quoted, skipLine rest)
        else readToken punct rest .comment token quoted
      else if char ∈ quotes then readToken punct rest (.quoted char) token quoted
      else if char ∈ escape then readToken punct rest (.escaped none) token quoted
      else if char ∉ punct then readToken punct rest .word (token ++ [char]) quoted
      else if token ≠ [] ∨ quoted = true then
        .ok (result token quoted, char :: rest)
      -- The character that was pushed back is read again at once.
      else readToken punct rest .punctuation [char] quoted
  | char :: rest, .punctuation, token, quoted =>
      if char ∈ whitespace then
        if token ≠ [] ∨ quoted = true then .ok (result token quoted, rest)
        else readToken punct rest .space token quoted
      else if char ∈ commenters then
        if token ≠ [] ∨ quoted = true then
          .ok (result token quoted, skipLine rest)
        else readToken punct rest .comment token quoted
      else if char ∈ punct then
        readToken punct rest .punctuation (token ++ [char]) quoted
      else .ok (result token quoted, char :: rest)

/-- The next token of a text. -/
def next (punct text : List Char) :
    Except Failure (Option (List Char) × List Char) :=
  readToken punct text .space [] false

/-- The first tokens of a text. -/
def tokensWithin (punct : List Char) :
    Nat → List Char → Except Failure (List (List Char))
  | 0, _ => .error .unfinished
  | fuel + 1, text =>
      match next punct text with
      | .error failure => .error failure
      | .ok (none, _) => .ok []
      | .ok (some token, rest) => (tokensWithin punct fuel rest).map (token :: ·)

/-- `list(lex)`. -/
def tokens (punct text : List Char) : Except Failure (List (List Char)) :=
  tokensWithin punct (text.length + 1) text

variable {punct : List Char}

/-! ## The tokens of a text are finite in number -/

theorem skipLine_length (text : List Char) :
    (skipLine text).length ≤ text.length := by
  rw [skipLine, List.length_drop]
  exact (Nat.sub_le _ _).trans (List.dropWhile_suffix _).length_le

/-- A character ends the token or is taken; one that is pushed back ends it. -/
theorem readToken_cons (char : Char) (text : List Char) (mode : Mode)
    (token : List Char) (quoted : Bool) :
    (∃ left, readToken punct (char :: text) mode token quoted =
        .ok (result token quoted, left) ∧
      (left = text ∨ left = skipLine text ∨ left = char :: text)) ∨
    ∃ mode' token' quoted', readToken punct (char :: text) mode token quoted =
      readToken punct text mode' token' quoted' := by
  cases mode with
  | space =>
      simp only [readToken]
      split_ifs
      · exact Or.inl ⟨_, rfl, Or.inl rfl⟩
      all_goals exact Or.inr ⟨_, _, _, rfl⟩
  | comment => exact Or.inr ⟨_, _, _, rfl⟩
  | escaped back => exact Or.inr ⟨_, _, _, rfl⟩
  | quoted quote =>
      simp only [readToken]
      split_ifs
      all_goals exact Or.inr ⟨_, _, _, rfl⟩
  | word =>
      simp only [readToken]
      split_ifs
      · exact Or.inl ⟨_, rfl, Or.inl rfl⟩
      · exact Or.inr ⟨_, _, _, rfl⟩
      · exact Or.inl ⟨_, rfl, Or.inr (Or.inl rfl)⟩
      · exact Or.inr ⟨_, _, _, rfl⟩
      · exact Or.inr ⟨_, _, _, rfl⟩
      · exact Or.inr ⟨_, _, _, rfl⟩
      · exact Or.inl ⟨_, rfl, Or.inr (Or.inr rfl)⟩
      · exact Or.inr ⟨_, _, _, rfl⟩
      · exact Or.inr ⟨_, _, _, rfl⟩
  | punctuation =>
      simp only [readToken]
      split_ifs
      · exact Or.inl ⟨_, rfl, Or.inl rfl⟩
      · exact Or.inr ⟨_, _, _, rfl⟩
      · exact Or.inl ⟨_, rfl, Or.inr (Or.inl rfl)⟩
      · exact Or.inr ⟨_, _, _, rfl⟩
      · exact Or.inr ⟨_, _, _, rfl⟩
      · exact Or.inl ⟨_, rfl, Or.inr (Or.inr rfl)⟩

/-- Nothing is left that was not there. -/
theorem readToken_length {text : List Char} {mode : Mode} {token : List Char}
    {quoted : Bool} {found : Option (List Char)} {rest : List Char}
    (reads : readToken punct text mode token quoted = .ok (found, rest)) :
    rest.length ≤ text.length := by
  induction text generalizing mode token quoted with
  | nil =>
      cases mode with
      | quoted quote => cases reads
      | escaped back => cases reads
      | _ =>
          obtain ⟨-, rfl⟩ := Prod.mk.inj (Except.ok.inj reads)
          exact Nat.le_refl _
  | cons char text ih =>
      rcases @readToken_cons punct char text mode token quoted with
        ⟨left, ends, hleft⟩ | ⟨mode', token', quoted', goesOn⟩
      · obtain ⟨-, rfl⟩ := Prod.mk.inj (Except.ok.inj (ends.symm.trans reads))
        rcases hleft with rfl | rfl | rfl
        · exact Nat.le_succ _
        · exact Nat.le_succ_of_le (skipLine_length text)
        · exact Nat.le_refl _
      · exact Nat.le_succ_of_le (ih (goesOn.symm.trans reads))

/-- A token takes at least its first character. -/
theorem next_length {text token rest : List Char}
    (reads : next punct text = .ok (some token, rest)) :
    rest.length < text.length := by
  cases text with
  | nil => cases reads
  | cons char text =>
      have goesOn : ∃ mode token quoted, next punct (char :: text) =
          readToken punct text mode token quoted := by
        simp only [next, readToken]
        split_ifs with blank given
        · simp at given
        all_goals exact ⟨_, _, _, rfl⟩
      obtain ⟨mode, token', quoted, goesOn⟩ := goesOn
      exact Nat.lt_succ_of_le (readToken_length (goesOn.symm.trans reads))

/-- It does not matter how much fuel there is, if there is enough. -/
theorem tokensWithin_congr {fuel other : Nat} {text : List Char}
    (hfuel : text.length < fuel) (hother : text.length < other) :
    tokensWithin punct fuel text = tokensWithin punct other text := by
  induction fuel generalizing other text with
  | zero => omega
  | succ fuel ih =>
      cases other with
      | zero => omega
      | succ other =>
          rw [tokensWithin, tokensWithin]
          cases reads : next punct text with
          | error failure => rfl
          | ok found =>
              obtain ⟨token, rest⟩ := found
              cases token with
              | none => rfl
              | some token =>
                  have hless := next_length reads
                  exact congrArg (Except.map (token :: ·))
                    (ih (by omega) (by omega))

theorem tokens_cons {text token rest : List Char}
    (reads : next punct text = .ok (some token, rest)) :
    tokens punct text = (tokens punct rest).map (token :: ·) := by
  have hless := next_length reads
  rw [tokens, tokensWithin, reads]
  exact congrArg (Except.map (token :: ·))
    (tokensWithin_congr hless (Nat.lt_succ_self _))

theorem tokens_nil {text rest : List Char}
    (reads : next punct text = .ok (none, rest)) : tokens punct text = .ok [] := by
  rw [tokens, tokensWithin, reads]

theorem readToken_finished (text : List Char) (mode : Mode) (token : List Char)
    (quoted : Bool) :
    readToken punct text mode token quoted ≠ .error .unfinished := by
  induction text generalizing mode token quoted with
  | nil => cases mode <;> simp [readToken]
  | cons char text ih =>
      rcases @readToken_cons punct char text mode token quoted with
        ⟨left, ends, -⟩ | ⟨mode', token', quoted', goesOn⟩
      · simp [ends]
      · exact goesOn ▸ ih mode' token' quoted'

/-- The lexer always gets to an end of its own. -/
theorem tokens_finished (text : List Char) :
    tokens punct text ≠ .error .unfinished := by
  have hfuel : ∀ fuel (text : List Char), text.length < fuel →
      tokensWithin punct fuel text ≠ .error .unfinished := by
    intro fuel
    induction fuel with
    | zero => exact fun _ less => absurd less (Nat.not_lt_zero _)
    | succ fuel ih =>
        intro text less
        rw [tokensWithin]
        cases reads : next punct text with
        | error failure =>
            rw [next] at reads
            simpa [reads] using @readToken_finished punct text .space [] false
        | ok found =>
            obtain ⟨token, rest⟩ := found
            cases token with
            | none => simp
            | some token =>
                have hless := next_length reads
                have hrest := ih rest (by omega)
                cases hlater : tokensWithin punct fuel rest with
                | error failure => simpa [hlater, Except.map] using hrest
                | ok others => simp [hlater, Except.map]
  exact hfuel _ text (Nat.lt_succ_self _)

/-! ## Plain words -/

/-- The lexer gives the character no meaning. -/
structure Plain (punct : List Char) (char : Char) : Prop where
  whitespace : char ∉ whitespace
  commenters : char ∉ commenters
  quotes : char ∉ quotes
  escape : char ∉ escape
  punct : char ∉ punct

instance (punct : List Char) (char : Char) : Decidable (Plain punct char) :=
  decidable_of_iff (char ∉ whitespace ∧ char ∉ commenters ∧ char ∉ quotes ∧
      char ∉ escape ∧ char ∉ punct)
    ⟨fun ⟨hwhitespace, hcommenters, hquotes, hescape, hpunct⟩ =>
        ⟨hwhitespace, hcommenters, hquotes, hescape, hpunct⟩,
      fun plain => ⟨plain.whitespace, plain.commenters, plain.quotes,
        plain.escape, plain.punct⟩⟩

theorem plain_of_all {word : List Char}
    (all : word.all (fun char => decide (Plain punct char)) = true) :
    ∀ char ∈ word, Plain punct char :=
  fun char member => of_decide_eq_true (List.all_eq_true.mp all char member)

/-- Plain characters are added to a word. -/
theorem readToken_plain {word : List Char} (plain : ∀ char ∈ word, Plain punct char)
    (text token : List Char) (quoted : Bool) :
    readToken punct (word ++ text) .word token quoted =
      readToken punct text .word (token ++ word) quoted := by
  induction word generalizing token with
  | nil => rw [List.nil_append, List.append_nil]
  | cons char word ih =>
      have hchar := plain char List.mem_cons_self
      rw [List.cons_append, readToken, if_neg hchar.whitespace,
        if_neg hchar.commenters, if_neg hchar.quotes, if_neg hchar.escape,
        if_pos hchar.punct, ih fun other member =>
          plain other (List.mem_cons_of_mem _ member), List.append_assoc,
        List.singleton_append]

theorem next_plain {word : List Char} (given : word ≠ [])
    (plain : ∀ char ∈ word, Plain punct char) (text : List Char) :
    next punct (word ++ text) = readToken punct text .word word false := by
  cases word with
  | nil => exact absurd rfl given
  | cons char word =>
      have hchar := plain char List.mem_cons_self
      rw [List.cons_append, next, readToken, if_neg hchar.whitespace,
        if_neg hchar.commenters, if_neg hchar.escape, if_neg hchar.punct,
        if_neg hchar.quotes, readToken_plain fun other member =>
          plain other (List.mem_cons_of_mem _ member), List.singleton_append]

theorem result_given {token : List Char} (given : token ≠ []) (quoted : Bool) :
    result token quoted = some token := by
  simp [result, given]

/-- A plain word and the blank behind it. -/
theorem next_word {word : List Char} (given : word ≠ [])
    (plain : ∀ char ∈ word, Plain punct char) (text : List Char) :
    next punct (word ++ ' ' :: text) = .ok (some word, text) := by
  rw [next_plain given plain, readToken, if_pos (by decide), if_pos (Or.inl given),
    result_given given]

theorem next_last {word : List Char} (given : word ≠ [])
    (plain : ∀ char ∈ word, Plain punct char) :
    next punct word = .ok (some word, []) := by
  have hnext := next_plain given plain []
  rw [List.append_nil] at hnext
  rw [hnext, readToken, result_given given]
  all_goals simp

theorem tokens_word {word : List Char} (given : word ≠ [])
    (plain : ∀ char ∈ word, Plain punct char) (text : List Char) :
    tokens punct (word ++ ' ' :: text) = (tokens punct text).map (word :: ·) :=
  tokens_cons (next_word given plain text)

theorem tokens_last {word : List Char} (given : word ≠ [])
    (plain : ∀ char ∈ word, Plain punct char) : tokens punct word = .ok [word] := by
  rw [tokens_cons (next_last given plain), tokens_nil rfl]
  rfl

theorem readToken_comment {text : List Char} (line : '\n' ∉ text)
    (token : List Char) (quoted : Bool) :
    readToken punct text .comment token quoted = .ok (result token quoted, []) := by
  induction text with
  | nil => rfl
  | cons char text ih =>
      rw [List.mem_cons, not_or] at line
      rw [readToken, if_neg (Ne.symm line.1), ih line.2]

theorem skipLine_of_not_mem {text : List Char} (line : '\n' ∉ text) :
    skipLine text = [] := by
  have hall : text.dropWhile (· ≠ '\n') = [] := by
    rw [List.dropWhile_eq_nil_iff]
    exact fun char member => decide_eq_true fun same => line (same ▸ member)
  rw [skipLine, hall, List.drop_nil]

/-- In a word as well a `#` begins a comment. -/
theorem next_comment {word : List Char} (plain : ∀ char ∈ word, Plain punct char)
    {text : List Char} (line : '\n' ∉ text) :
    next punct (word ++ '#' :: text) =
      .ok (if word = [] then none else some word, []) := by
  by_cases given : word = []
  · subst given
    rw [List.nil_append, next, readToken, if_neg (by decide), if_pos (by decide),
      readToken_comment line]
    rfl
  · rw [next_plain given plain, readToken, if_neg (by decide), if_pos (by decide),
      if_pos (Or.inl given), result_given given, skipLine_of_not_mem line,
      if_neg given]

theorem tokens_comment {word : List Char} (plain : ∀ char ∈ word, Plain punct char)
    {text : List Char} (line : '\n' ∉ text) :
    tokens punct (word ++ '#' :: text) = .ok (if word = [] then [] else [word]) := by
  have hnext := next_comment plain line
  by_cases given : word = []
  · rw [if_pos given] at hnext ⊢
    exact tokens_nil hnext
  · rw [if_neg given] at hnext ⊢
    rw [tokens_cons hnext, tokens_nil rfl]
    rfl

/-- A single character of punctuation and the blank behind it. -/
theorem next_punct {char : Char} (member : char ∈ punct)
    (hwhitespace : char ∉ whitespace) (hcommenters : char ∉ commenters)
    (hescape : char ∉ escape) (text : List Char) :
    next punct (char :: ' ' :: text) = .ok (some [char], text) := by
  rw [next, readToken, if_neg hwhitespace, if_neg hcommenters, if_neg hescape,
    if_pos member, readToken, if_pos (by decide), if_pos (Or.inl (by simp))]
  rfl

theorem tokens_punct {char : Char} (member : char ∈ punct)
    (hwhitespace : char ∉ whitespace) (hcommenters : char ∉ commenters)
    (hescape : char ∉ escape) (text : List Char) :
    tokens punct (char :: ' ' :: text) = (tokens punct text).map ([char] :: ·) :=
  tokens_cons (next_punct member hwhitespace hcommenters hescape text)

end RiscosBuilder.Library.Shlex
