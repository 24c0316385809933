import RiscosBuilder.Build.Pipeline

/-!
# The answer file

`processOpts` of `build.py`.  The keys of a line are for a screen that shows its
text: nothing is typed that no screen has asked for.
-/

namespace RiscosBuilder.Build

open RiscosBuilder.Library

/--
How far an answer file has been played: the lines that count, how many of their
texts have come up, and what has been typed.
-/
structure Played where
  file : List Answer
  shown : Nat
  typed : List Effect
  deriving DecidableEq, Repr

namespace Played

variable (env : Env)

def start : Played :=
  ⟨[], 0, []⟩

/-- The keys of the lines whose texts have come up. -/
def due (p : Played) : List Effect :=
  (p.file.take p.shown).flatMap fun answer => inputKeys env answer.keys

/-- The screen shows the text of the next line, and all keys before it were typed. -/
def Shows (p : Played) (screen : Text) : Prop :=
  p.typed = p.due env ∧ ∃ answer ∈ p.file[p.shown]?, answer.text <:+: screen

instance (p : Played) (screen : Text) : Decidable (p.Shows env screen) :=
  inferInstanceAs (Decidable (_ ∧ _))

def add (p : Played) : (act : Act) → act.Reply → Played
  | .optsLines _, lines => ⟨lines.filterMap readAnswer, 0, []⟩
  | .screenTextValue, screen =>
      if p.Shows env screen then { p with shown := p.shown + 1 } else p
  | .effect effect, _ => { p with typed := p.typed ++ [effect] }
  | _, _ => p

/-- How far the file has been played after a history. -/
def of : List (Answered Act.Reply) → Played :=
  Program.seen (add env) start

end Played

/-- Only what is due may be typed, and only in order. -/
def typing (env : Env) : Program.Watch Act.Reply Played where
  allows p
    | .effect effect => p.typed ++ [effect] <+: p.due env
    | _ => True
  after := Played.add env

variable {py : Python} {conf : Conf} {p : Played}

/-- A call, and the rest of the program with its answer. -/
theorem typing_ask {α : Type} {act : Act} {f : act.Reply → Prog α}
    {Q : α → Played → Prop} :
    (ask act >>= f).wp (typing conf.env) Q p ↔ (typing conf.env).allows p act ∧
      ∀ reply, (f reply).wp (typing conf.env) Q (p.add conf.env act reply) :=
  Program.wp_bind.trans Iff.rfl

/-- What is due is typed key by key. -/
theorem perform_types (effects : List Effect) (due : p.typed ++ effects = p.due conf.env)
    {Q : Unit → Played → Prop} (h : Q () { p with typed := p.due conf.env }) :
    (perform effects).wp (typing conf.env) Q p := by
  induction effects generalizing p with
  | nil =>
      rw [List.append_nil] at due
      rw [← due] at h
      exact h
  | cons effect effects ih =>
      refine typing_ask.mpr ⟨⟨effects, ?_⟩, fun _ => ?_⟩
      · rw [List.append_assoc]
        exact due
      · refine @ih { p with typed := p.typed ++ [effect] } ?_ h
        rw [List.append_assoc]
        exact due

/-- The text comes up, or it does not, and then nothing has changed. -/
theorem waitForText_shows {answer : Answer} (next : p.file[p.shown]? = some answer)
    (typed : p.typed = p.due conf.env) (sec : Text) {Q : Int → Played → Prop}
    (comes : Q 0 { p with shown := p.shown + 1 }) (fails : Q 1 p) :
    (waitForText py conf answer.text sec).wp (typing conf.env) Q p := by
  unfold waitForText
  split
  · exact fails
  split
  · exact fails
  have hscreen : (do
      let screen ← ask .screenTextValue
      if answer.text <:+: screen then pure (.inr 0)
      else pure (.inl ()) : Prog (Unit ⊕ Int)).wp (typing conf.env)
        (fun out after => out.elim (fun _ => after = p) (fun rc => Q rc after)) p := by
    refine typing_ask.mpr ⟨trivial, fun screen => ?_⟩
    have hshows : p.Shows conf.env screen ↔ answer.text <:+: screen := by
      simp [Played.Shows, typed, next]
    simp only [Played.add, hshows]
    split
    · exact comes
    · exact rfl
  have hloop : ∀ deadline, (Program.forever
      (fun _ => waitForTextTurn answer.text deadline) ()).wp (typing conf.env) Q p := by
    intro deadline
    refine Program.wp_forever (fun _ after => after = p) rfl ?_
    rintro ⟨⟩ after rfl
    cases deadline with
    | none => exact hscreen
    | some deadline =>
        refine Program.wp_bind.mpr (typing_ask.mpr ⟨trivial, fun now => ?_⟩)
        change Program.wp _ (if decide (deadline ≤ now) = true then _ else _) _ _
        split
        · exact fails
        · exact hscreen
  unfold deadlineAfter
  split
  · exact hloop none
  · refine Program.wp_bind.mpr (typing_ask.mpr ⟨trivial, fun now => ?_⟩)
    split
    · next seconds _ => exact hloop (some (now + seconds))
    · exact trivial

/-- A file that is played to its end, or up to a line whose text does not come up. -/
structure Ends (env : Env) (rc : Int) (p : Played) : Prop where
  typed : p.typed = p.due env
  status : rc = 0 ∧ p.shown = p.file.length ∨ rc = 1 ∧ p.shown < p.file.length

theorem processAnswers_plays (answers : List Answer)
    (rest : p.file.drop p.shown = answers) (typed : p.typed = p.due conf.env)
    (inside : p.shown ≤ p.file.length) :
    (processAnswers py conf answers).wp (typing conf.env) (Ends conf.env) p := by
  induction answers generalizing p with
  | nil =>
      refine ⟨typed, Or.inl ⟨rfl, ?_⟩⟩
      have := List.drop_eq_nil_iff.mp rest
      omega
  | cons answer answers ih =>
      have hlt : p.shown < p.file.length := by
        by_contra hle
        rw [List.drop_eq_nil_of_le (by omega)] at rest
        cases rest
      have hnext : p.file[p.shown]? = some answer := by
        rw [← List.head?_drop, rest, List.head?_cons]
      refine Program.wp_bind.mpr (waitForText_shows hnext typed _ ?_ ?_)
      · have hdue : Played.due conf.env { p with shown := p.shown + 1 } =
            p.typed ++ inputKeys conf.env answer.keys := by
          rw [typed, Played.due, Played.due, List.take_add_one, hnext,
            List.flatMap_append, Option.toList_some, List.flatMap_singleton]
        refine Program.wp_bind.mpr (perform_types _ hdue.symm ?_)
        refine ih ?_ rfl (Nat.succ_le_of_lt hlt)
        rw [← List.tail_drop, rest, List.tail_cons]
      · exact ⟨typed, Or.inr ⟨rfl, hlt⟩⟩

/-- Whatever is typed is due, and comes next. -/
def TypesWhatIsDue (env : Env) (history : List (Answered Act.Reply)) : Prop :=
  ∀ front effect reply, front ++ [⟨.effect effect, reply⟩] <+: history →
    (Played.of env front).typed ++ [effect] <+: (Played.of env front).due env

/--
Along every run of `processOpts` a key is typed only after the texts of its line
and of all lines before it have come up, one after the other, and after all that
was due earlier.  When it returns, all that is due has been typed; it returns 0
just if the text of every line has come up.
-/
theorem answers_played {optsfile : Text} (named : conf.osname ≠ [])
    (given : optsfile ≠ []) {history : List (Answered Act.Reply)}
    {out : Except Halt Int} (runs : (processOpts py conf optsfile).Runs history out) :
    TypesWhatIsDue conf.env history ∧
      ∀ rc, out = .ok rc → Ends conf.env rc (Played.of conf.env history) := by
  have hspec : (processOpts py conf optsfile).wp (typing conf.env) (Ends conf.env)
      .start := by
    rw [processOpts, if_neg named, if_neg given]
    refine typing_ask.mpr ⟨trivial, fun lines => ?_⟩
    exact processAnswers_plays _ rfl rfl (Nat.zero_le _)
  obtain ⟨kept, returns⟩ := runs.sound hspec
  exact ⟨fun front effect reply early => kept front ⟨.effect effect, reply⟩ early,
    returns⟩

/-- A guest called netbsd, on the serial console. -/
def installer : Conf where
  env
    | .VM_OS_NAME => text "netbsd"
    | .VM_USE_CONSOLE_BUILD => text "1"
    | _ => []
  set _ := []
  user := text "user"

/-- An installer that goes on to its next screen once a key was typed. -/
def twoScreens (past : List (Answered Act.Reply)) : (act : Act) → Option act.Reply
  | .optsLines _ =>
      some [text "# the installer", text "Install|enter|60",
        text "Reboot | string yes; enter"]
  | .screenTextValue =>
      some (if past.any fun answered => answered.what = .effect (enter true)
        then text "Reboot now?" else text "Install NetBSD")
  | .time => some past.length
  | .effect _ => some ()
  | _ => none

/-- The answer file is played on it. -/
def answered : Except Halt Int × List (Answered Act.Reply) :=
  Program.play twoScreens 40
    (processOpts ⟨fun _ => some 60, fun _ => []⟩ installer (text "netbsd.opts")) []

theorem answers_played_twoScreens : TypesWhatIsDue installer.env answered.2 ∧
    ∀ rc, answered.1 = .ok rc →
      Ends installer.env rc (Played.of installer.env answered.2) :=
  answers_played (by decide) (by decide) (Program.play_runs twoScreens 40 _ [])

example : answered.1 = .ok 0 ∧ (Played.of installer.env answered.2).typed =
    [enter true, string true [text "yes"], enter true] := by
  decide +kernel

end RiscosBuilder.Build
