import RiscosBuilder.Build.Environment
import RiscosBuilder.Library.Shlex

/-!
# Key sequences

`inputKeys` of `build.py`: a line of commands with semicolons between them is
taken apart by `shlex`, and the commands type texts and press keys in the guest.
-/

namespace RiscosBuilder.Build

open RiscosBuilder.Library

/-! ## What reaches the guest -/

/--
What a command does: it gives a text to `_send_console`, has `vncdotool` run
with the arguments behind those that name the server, waits, or runs a program.
-/
inductive Effect where
  | console (data : Text)
  | vncdotool (args : List Text)
  | sleep (seconds : Text)
  | run (argv : List Text)
  deriving DecidableEq, Repr

section Keys

variable (console : Bool)

/-- `_key`. -/
def key (consoleSeq vncKey : Text) : Effect :=
  if console then .console consoleSeq else .vncdotool [text "key", vncKey]

/-- `string`. -/
def string (args : List Text) : Effect :=
  let typed := [' '].intercalate args
  if console then .console typed
  else .vncdotool [text "--force-caps", text "--delay=40", text "type", typed]

def space : Effect :=
  if console then .console [' '] else .vncdotool [text "type", [' ']]

def enter : Effect :=
  key console ['\r'] (text "enter")

/-- `KEYFUNCS`; `\x1b` is the escape character. -/
def KEYFUNCS : List (Text × Effect) :=
  [(text "enter", enter console),
    (text "space", space console),
    (text "tab", key console ['\t'] (text "tab")),
    (text "f2", key console ('\x1b' :: text "[12~") (text "f2")),
    (text "f7", key console ('\x1b' :: text "[18~") (text "f7")),
    (text "f8", key console ('\x1b' :: text "[19~") (text "f8")),
    (text "down", key console ('\x1b' :: text "[B") (text "down")),
    (text "up", key console ('\x1b' :: text "[A") (text "up")),
    (text "ctrlD", key console ['\x04'] (text "ctrl-d"))]

/-- `_dispatch_keygroup`; nothing is waited for where there is no number. -/
def dispatchKeygroup : List Text → List Effect
  | [] => []
  | cmd :: rest =>
      if cmd = text "string" then [string console rest]
      else if cmd = text "sleep" then rest.head?.toList.map Effect.sleep
      else
        match (KEYFUNCS console).lookup cmd with
        | some pressed => [pressed]
        | none => [.run (cmd :: rest)]

/-- The white space of Python 3. -/
def isSpace (char : Char) : Bool :=
  char.toNat ∈ [0x09, 0x0a, 0x0b, 0x0c, 0x0d, 0x1c, 0x1d, 0x1e, 0x1f, 0x20, 0x85,
    0xa0, 0x1680, 0x2000, 0x2001, 0x2002, 0x2003, 0x2004, 0x2005, 0x2006, 0x2007,
    0x2008, 0x2009, 0x200a, 0x2028, 0x2029, 0x202f, 0x205f, 0x3000]

/-- `grp.split()`. -/
def split (grp : Text) : List Text :=
  (grp.splitOnP isSpace).filter (· ≠ [])

/-- The groups of the tokens, one after the other. -/
def dispatchTokens (tokens : List Text) : List Effect :=
  (tokens.splitOn [';']).flatMap (dispatchKeygroup console)

/-- `_run_keyseq`. -/
def runKeyseq (keystr : Text) : List Effect :=
  match Shlex.tokens [';'] keystr with
  | .ok tokens => dispatchTokens console tokens
  | .error _ => (keystr.splitOn ';').flatMap fun grp =>
      dispatchKeygroup console (split grp)

end Keys

/-- `inputKeys`. -/
def inputKeys (env : Env) (keys : Text) : List Effect :=
  if env .VM_OS_NAME = [] then []
  else runKeyseq (decide (env .VM_USE_CONSOLE_BUILD ≠ [])) keys

/-- It is Python's own exceptions only that the fallback is taken for. -/
theorem failure_cases {keystr : Text} {failure : Shlex.Failure}
    (fails : Shlex.tokens [';'] keystr = .error failure) :
    failure = .noClosingQuotation ∨ failure = .noEscapedCharacter := by
  cases failure with
  | noClosingQuotation => exact Or.inl rfl
  | noEscapedCharacter => exact Or.inr rfl
  | unfinished => exact absurd fails (Shlex.tokens_finished keystr)

/-! ## Texts to be typed -/

/-- A text without blanks, tabs, line ends, semicolons, quotes and backslashes. -/
structure Literal where
  chars : Text
  given : chars ≠ []
  plain : ∀ char ∈ chars,
    char ∉ [' ', '\t', '\r', '\n', ';', '\'', '"', '\\']

/-- A text is typed, then Enter is pressed. -/
def typed (console : Bool) (t : Literal) : List Effect :=
  if console then [.console t.chars, .console ['\r']]
  else
    [.vncdotool [text "--force-caps", text "--delay=40", text "type", t.chars],
      .vncdotool [text "key", text "enter"]]

/-- `string T ; enter`. -/
def entry (t : Literal) : Text :=
  text "string " ++ t.chars ++ text " ; enter"

/-- `string T1 ; enter ; string T2 ; enter` and so on. -/
def sequence : List Literal → Text
  | [] => []
  | [t] => entry t
  | t :: ts => entry t ++ text " ; " ++ sequence ts

/-! ## The tokens of a sequence -/

theorem Literal.plain_char (t : Literal) {char : Char} (member : char ∈ t.chars)
    (clean : char ≠ '#') : Shlex.Plain [';'] char := by
  have hplain := t.plain char member
  simp only [List.mem_cons, List.not_mem_nil, or_false, not_or] at hplain
  constructor <;> simp [Shlex.whitespace, Shlex.commenters, Shlex.quotes,
    Shlex.escape, hplain, clean]

theorem Literal.plain_of_not_mem (t : Literal) (clean : '#' ∉ t.chars) :
    ∀ char ∈ t.chars, Shlex.Plain [';'] char :=
  fun _ member => t.plain_char member fun same => clean (same ▸ member)

theorem plain_string : ∀ char ∈ text "string", Shlex.Plain [';'] char :=
  Shlex.plain_of_all (by decide)

theorem plain_enter : ∀ char ∈ text "enter", Shlex.Plain [';'] char :=
  Shlex.plain_of_all (by decide)

theorem tokens_string {t : Literal} (clean : '#' ∉ t.chars) (rest : Text) :
    Shlex.tokens [';'] (text "string " ++ t.chars ++ text " ; " ++ rest) =
      (Shlex.tokens [';'] rest).map
        ([text "string", t.chars] ++ [';'] :: ·) := by
  have hparts : text "string " ++ t.chars ++ text " ; " ++ rest =
      text "string" ++ ' ' :: (t.chars ++ ' ' :: (';' :: ' ' :: rest)) := by
    simp [text]
  rw [hparts, Shlex.tokens_word (by decide) plain_string,
    Shlex.tokens_word t.given (t.plain_of_not_mem clean),
    Shlex.tokens_punct (by decide) (by decide) (by decide) (by decide)]
  cases Shlex.tokens [';'] rest <;> rfl

theorem tokens_enter (rest : Text) :
    Shlex.tokens [';'] (text "enter ; " ++ rest) =
      (Shlex.tokens [';'] rest).map ([text "enter"] ++ [';'] :: ·) := by
  have hparts : text "enter ; " ++ rest =
      text "enter" ++ ' ' :: (';' :: ' ' :: rest) := rfl
  rw [hparts, Shlex.tokens_word (by decide) plain_enter,
    Shlex.tokens_punct (by decide) (by decide) (by decide) (by decide)]
  cases Shlex.tokens [';'] rest <;> rfl

/-- What stands behind a `#` is lost, up to the end of the line. -/
theorem tokens_cut {front : Text} (plain : ∀ char ∈ front, Shlex.Plain [';'] char)
    {behind : Text} (line : '\n' ∉ behind) :
    Shlex.tokens [';'] (text "string " ++ (front ++ '#' :: behind)) =
      .ok (text "string" :: if front = [] then [] else [front]) := by
  have hparts : text "string " ++ (front ++ '#' :: behind) =
      text "string" ++ ' ' :: (front ++ '#' :: behind) := rfl
  rw [hparts, Shlex.tokens_word (by decide) plain_string,
    Shlex.tokens_comment plain line]
  rfl

/-! ## What a sequence types -/

section Sequence

variable (console : Bool)

theorem dispatchTokens_group {group : List Text} (free : [';'] ∉ group)
    (tokens : List Text) :
    dispatchTokens console (group ++ [';'] :: tokens) =
      dispatchKeygroup console group ++ dispatchTokens console tokens := by
  rw [dispatchTokens, List.splitOn_append_cons_self_of_not_mem free,
    List.flatMap_cons]
  rfl

theorem dispatchTokens_last {group : List Text} (free : [';'] ∉ group) :
    dispatchTokens console group = dispatchKeygroup console group := by
  rw [dispatchTokens, List.splitOn_eq_singleton free, List.flatMap_singleton]

theorem dispatchKeygroup_enter :
    dispatchKeygroup console [text "enter"] = [enter console] := by
  cases console <;> rfl

theorem not_separator_enter : [';'] ∉ [text "enter"] := by
  decide

theorem typed_eq (t : Literal) :
    typed console t = [string console [t.chars], enter console] := by
  cases console <;> simp [typed, string, enter, key]

theorem Literal.not_separator (t : Literal) :
    [';'] ∉ [text "string", t.chars] := by
  intro member
  rcases List.mem_cons.mp member with same | member
  · exact absurd same (by decide)
  · have same := List.mem_singleton.mp member
    exact t.plain ';' (same ▸ List.mem_singleton_self _) (by decide)

theorem dispatchTokens_cut {shown : Text} (free : ';' ∉ shown) :
    dispatchTokens console (text "string" :: if shown = [] then [] else [shown]) =
      [string console (if shown = [] then [] else [shown])] := by
  refine dispatchTokens_last console fun member => ?_
  rcases List.mem_cons.mp member with same | member
  · exact absurd same (by decide)
  · split_ifs at member with none
    · exact List.not_mem_nil member
    · exact free (List.mem_singleton.mp member ▸ List.mem_singleton_self _)

/-- The lexer has no objection to the text, and its tokens send this. -/
def Dispatches (keystr : Text) (sent : List Effect) : Prop :=
  ∃ tokens, Shlex.tokens [';'] keystr = .ok tokens ∧
    dispatchTokens console tokens = sent

variable {console}

theorem Dispatches.runKeyseq {keystr : Text} {sent : List Effect}
    (dispatches : Dispatches console keystr sent) :
    runKeyseq console keystr = sent := by
  obtain ⟨tokens, reads, rfl⟩ := dispatches
  rw [Build.runKeyseq, reads]

theorem Dispatches.string {rest : Text} {sent : List Effect}
    (later : Dispatches console rest sent) {t : Literal} (clean : '#' ∉ t.chars) :
    Dispatches console (text "string " ++ t.chars ++ text " ; " ++ rest)
      (string console [t.chars] :: sent) := by
  obtain ⟨tokens, reads, rfl⟩ := later
  refine ⟨_, ?_, dispatchTokens_group console t.not_separator tokens⟩
  rw [tokens_string clean, reads]
  rfl

theorem Dispatches.enter {rest : Text} {sent : List Effect}
    (later : Dispatches console rest sent) :
    Dispatches console (text "enter ; " ++ rest) (enter console :: sent) := by
  obtain ⟨tokens, reads, rfl⟩ := later
  have hgroup := dispatchTokens_group console not_separator_enter tokens
  rw [dispatchKeygroup_enter] at hgroup
  refine ⟨_, ?_, hgroup⟩
  rw [tokens_enter, reads]
  rfl

theorem dispatches_enter : Dispatches console (text "enter") [enter console] := by
  refine ⟨_, Shlex.tokens_last (by decide) plain_enter, ?_⟩
  rw [dispatchTokens_last console not_separator_enter, dispatchKeygroup_enter]

theorem dispatches_entry {t : Literal} (clean : '#' ∉ t.chars) :
    Dispatches console (entry t) (typed console t) := by
  have hparts : entry t =
      text "string " ++ t.chars ++ text " ; " ++ text "enter" := by
    simp [entry, text]
  rw [hparts, typed_eq]
  exact dispatches_enter.string clean

theorem Dispatches.entry_append {rest : Text} {sent : List Effect}
    (later : Dispatches console rest sent) {t : Literal} (clean : '#' ∉ t.chars) :
    Dispatches console (entry t ++ text " ; " ++ rest) (typed console t ++ sent) := by
  have hparts : entry t ++ text " ; " ++ rest =
      text "string " ++ t.chars ++ text " ; " ++ (text "enter ; " ++ rest) := by
    simp [entry, text]
  rw [hparts, typed_eq]
  exact later.enter.string clean

theorem sequence_cons (t : Literal) {texts : List Literal} (later : texts ≠ []) :
    sequence (t :: texts) = entry t ++ text " ; " ++ sequence texts := by
  cases texts with
  | nil => exact absurd rfl later
  | cons t' texts => rfl

theorem entry_line (t : Literal) : '\n' ∉ entry t := by
  have hchars : '\n' ∉ t.chars := fun member => t.plain _ member (by decide)
  simp [entry, text, hchars]

theorem sequence_line (texts : List Literal) : '\n' ∉ sequence texts := by
  induction texts with
  | nil => exact List.not_mem_nil
  | cons t texts ih =>
      cases texts with
      | nil => exact entry_line t
      | cons t' texts =>
          rw [sequence_cons t (List.cons_ne_nil _ _), List.mem_append,
            List.mem_append, not_or, not_or]
          exact ⟨⟨entry_line t, by decide⟩, ih⟩

/-- A sequence is one line; this is its first text. -/
theorem sequence_first (t : Literal) (texts : List Literal) :
    ∃ more, sequence (t :: texts) = text "string " ++ (t.chars ++ more) ∧
      '\n' ∉ more := by
  cases texts with
  | nil => exact ⟨text " ; enter", by simp [sequence, entry], by decide⟩
  | cons t' texts =>
      refine ⟨text " ; enter" ++ (text " ; " ++ sequence (t' :: texts)), ?_, ?_⟩
      · simp [sequence, entry]
      · rw [List.mem_append, List.mem_append, not_or, not_or]
        exact ⟨by decide, by decide, sequence_line _⟩

theorem dispatches_sequence {texts : List Literal}
    (clean : ∀ t ∈ texts, '#' ∉ t.chars) :
    Dispatches console (sequence texts) (texts.flatMap (typed console)) := by
  induction texts with
  | nil => exact ⟨[], rfl, rfl⟩
  | cons t texts ih =>
      have hfirst := clean t List.mem_cons_self
      have hrest := ih fun t' member => clean t' (List.mem_cons_of_mem _ member)
      rw [List.flatMap_cons]
      by_cases later : texts = []
      · subst later
        rw [List.flatMap_nil, List.append_nil]
        exact dispatches_entry hfirst
      · rw [sequence_cons t later]
        exact hrest.entry_append hfirst

/-- The first `#` is the end of all that the sequence does. -/
theorem dispatches_cut {front : List Literal} (clean : ∀ t ∈ front, '#' ∉ t.chars)
    {t : Literal} {shown behind : Text} (parts : t.chars = shown ++ '#' :: behind)
    (first : '#' ∉ shown) (back : List Literal) :
    Dispatches console (sequence (front ++ t :: back))
      (front.flatMap (typed console) ++
        [string console (if shown = [] then [] else [shown])]) := by
  induction front with
  | nil =>
      obtain ⟨more, hmore, line⟩ := sequence_first t back
      have hshown : ∀ char ∈ shown, char ∈ t.chars := fun char member =>
        parts ▸ List.mem_append_left _ member
      have hplain : ∀ char ∈ shown, Shlex.Plain [';'] char := fun char member =>
        t.plain_char (hshown char member) fun same => first (same ▸ member)
      have hbehind : '\n' ∉ behind ++ more := by
        rw [List.mem_append, not_or]
        refine ⟨fun member => t.plain '\n' ?_ (by decide), line⟩
        exact parts ▸ List.mem_append_right _ (List.mem_cons_of_mem _ member)
      refine ⟨_, ?_, dispatchTokens_cut console fun member =>
        t.plain ';' (hshown _ member) (by decide)⟩
      rw [List.nil_append, hmore, parts, List.append_assoc, List.cons_append]
      exact tokens_cut hplain hbehind
  | cons t' front ih =>
      have hfirst := clean t' List.mem_cons_self
      have hrest := ih fun t member => clean t (List.mem_cons_of_mem _ member)
      rw [List.cons_append, sequence_cons t' (by simp), List.flatMap_cons,
        List.append_assoc (typed console t')]
      exact hrest.entry_append hfirst

theorem typed_length (t : Literal) : (typed console t).length = 2 := by
  rw [typed_eq]
  rfl

theorem length_flatMap_typed (texts : List Literal) :
    (texts.flatMap (typed console)).length = 2 * texts.length := by
  induction texts with
  | nil => rfl
  | cons t texts ih =>
      rw [List.flatMap_cons, List.length_append, ih, typed_length,
        List.length_cons, Nat.mul_succ, Nat.add_comm]

/-- Where a `#` is among the texts, there is a first one. -/
theorem clean_or_cut (texts : List Literal) :
    (∀ t ∈ texts, '#' ∉ t.chars) ∨
    ∃ front t back shown behind, texts = front ++ t :: back ∧
      (∀ t' ∈ front, '#' ∉ t'.chars) ∧ t.chars = shown ++ '#' :: behind ∧
      '#' ∉ shown := by
  cases found : texts.find? fun t => decide ('#' ∈ t.chars) with
  | none =>
      refine Or.inl fun t member => ?_
      simpa using List.find?_eq_none.mp found t member
  | some t =>
      obtain ⟨inside, front, back, parts, clean⟩ :=
        List.find?_eq_some_iff_append.mp found
      obtain ⟨shown, behind, halves, first⟩ :=
        List.eq_append_cons_of_mem (of_decide_eq_true inside)
      exact Or.inr ⟨front, t, back, shown, behind, parts,
        fun t' member => by simpa using clean t' member, halves, first⟩

theorem runKeyseq_typed_iff (texts : List Literal) :
    runKeyseq console (sequence texts) = texts.flatMap (typed console) ↔
      ∀ t ∈ texts, '#' ∉ t.chars := by
  constructor
  · intro sends
    rcases clean_or_cut texts with
      clean | ⟨front, t, back, shown, behind, rfl, clean, parts, first⟩
    · exact clean
    · -- The text before the `#` is all that is sent behind `front`.
      have hlength := congrArg List.length
        ((dispatches_cut clean parts first back).runKeyseq.symm.trans sends)
      rw [List.length_append, length_flatMap_typed, length_flatMap_typed,
        List.length_append, List.length_singleton, List.length_cons] at hlength
      omega
  · exact fun clean => (dispatches_sequence clean).runKeyseq

end Sequence

/-- Texts that are given to `inputKeys` are typed if there is no `#` in them. -/
theorem inputKeys_typed_iff (env : Env) (named : env .VM_OS_NAME ≠ [])
    (texts : List Literal) :
    inputKeys env (sequence texts) =
        texts.flatMap (typed (decide (env .VM_USE_CONSOLE_BUILD ≠ []))) ↔
      ∀ t ∈ texts, '#' ∉ t.chars := by
  rw [inputKeys, if_neg named]
  exact runKeyseq_typed_iff texts

theorem inputKeys_typed_iff_login :
    inputKeys (fun _ => text "riscos") (text "string pi:3.14 ; enter") =
      [.console (text "pi:3.14"), .console ['\r']] :=
  (inputKeys_typed_iff (fun _ => text "riscos") (by decide)
    [⟨text "pi:3.14", by decide, by simp [text]⟩]).mpr (by simp [text])

/-- Of the password `a#b` the guest gets `a`, and no Enter. -/
theorem inputKeys_not_typed_hash :
    inputKeys (fun _ => text "riscos") (text "string a#b ; enter") =
        [.console (text "a")] ∧
      ¬ ∀ texts : List Literal,
        inputKeys (fun _ => text "riscos") (sequence texts) =
          texts.flatMap (typed true) := by
  have hcut : inputKeys (fun _ => text "riscos") (text "string a#b ; enter") =
      [.console (text "a")] := by decide
  refine ⟨hcut, fun types => ?_⟩
  have htyped := types [⟨text "a#b", by decide, by simp [text]⟩]
  have hsame : [Effect.console (text "a")] =
      [.console (text "a#b"), .console ['\r']] := hcut.symm.trans htyped
  cases hsame

end RiscosBuilder.Build
