/-!
# Programs that call out

A program asks the world outside for one thing after the other, may raise, and
may loop without bound.  What its calls have answered is its history.  A watch
tells what a history amounts to and which call may come next; the weakest
precondition of a program keeps to it whatever the calls answer.
-/

namespace RiscosBuilder.Library

/-- A program that returns an `α`. -/
inductive Program (Call : Type) (Reply : Call → Type) : Type → Type 1
  | ret {α : Type} (value : α) : Program Call Reply α
  | raise {α : Type} : Program Call Reply α
  | call {α : Type} (what : Call) (next : Reply what → Program Call Reply α) :
      Program Call Reply α
  | loop {α β σ : Type} (body : σ → Program Call Reply (σ ⊕ β)) (state : σ)
      (next : β → Program Call Reply α) : Program Call Reply α

/-- A call and what it answers; nothing when it raises. -/
structure Answered {Call : Type} (Reply : Call → Type) where
  what : Call
  reply : Option (Reply what)

/-- A run that does not return has raised, or goes on. -/
inductive Halt where
  | raised
  | underWay
  deriving DecidableEq, Repr

namespace Program

variable {Call : Type} {Reply : Call → Type} {α β σ τ : Type}

protected def bind : Program Call Reply α → (α → Program Call Reply β) →
    Program Call Reply β
  | .ret value, f => f value
  | .raise, _ => .raise
  | .call what next, f => .call what fun reply => (next reply).bind f
  | .loop body state next, f => .loop body state fun value => (next value).bind f

instance : Monad (Program Call Reply) where
  pure := .ret
  bind := Program.bind

/-- One call. -/
def ask (what : Call) : Program Call Reply (Reply what) :=
  .call what .ret

/-- Take turns until one leaves the loop. -/
def forever (body : σ → Program Call Reply (σ ⊕ β)) (state : σ) :
    Program Call Reply β :=
  .loop body state .ret

/-- One stage after the other; the first that fails decides. -/
def stages : List (Program Call Reply Bool) → Program Call Reply Bool
  | [] => pure true
  | stage :: others => do
      if ← stage then stages others else pure false

/-! ## Runs -/

/-- The histories of a program, those of a run under way included. -/
inductive Runs : {α : Type} → Program Call Reply α → List (Answered Reply) →
    Except Halt α → Prop
  | underWay {α : Type} (prog : Program Call Reply α) :
      Runs prog [] (.error .underWay)
  | ret {α : Type} (value : α) : Runs (.ret value) [] (.ok value)
  | raise {α : Type} : Runs (.raise : Program Call Reply α) [] (.error .raised)
  | fails {α : Type} (what : Call) (next : Reply what → Program Call Reply α) :
      Runs (.call what next) [⟨what, none⟩] (.error .raised)
  | call {α : Type} {what : Call} {next : Reply what → Program Call Reply α}
      {history : List (Answered Reply)} {out : Except Halt α}
      (reply : Reply what) (runs : Runs (next reply) history out) :
      Runs (.call what next) (⟨what, some reply⟩ :: history) out
  | halts {α β σ : Type} {body : σ → Program Call Reply (σ ⊕ β)} {state : σ}
      {next : β → Program Call Reply α} {history : List (Answered Reply)}
      {halt : Halt} (turn : Runs (body state) history (.error halt)) :
      Runs (.loop body state next) history (.error halt)
  | again {α β σ : Type} {body : σ → Program Call Reply (σ ⊕ β)}
      {state after : σ} {next : β → Program Call Reply α}
      {history later : List (Answered Reply)} {out : Except Halt α}
      (turn : Runs (body state) history (.ok (.inl after)))
      (runs : Runs (.loop body after next) later out) :
      Runs (.loop body state next) (history ++ later) out
  | leaves {α β σ : Type} {body : σ → Program Call Reply (σ ⊕ β)} {state : σ}
      {value : β} {next : β → Program Call Reply α}
      {history later : List (Answered Reply)} {out : Except Halt α}
      (turn : Runs (body state) history (.ok (.inr value)))
      (runs : Runs (next value) later out) :
      Runs (.loop body state next) (history ++ later) out

/-- Let the calls be answered by `world`, which knows the history; `fuel` bounds the depth. -/
def play (world : List (Answered Reply) → (what : Call) → Option (Reply what)) :
    {α : Type} → Nat → Program Call Reply α → List (Answered Reply) →
      Except Halt α × List (Answered Reply)
  | _, 0, _, _ => (.error .underWay, [])
  | _, _ + 1, .ret value, _ => (.ok value, [])
  | _, _ + 1, .raise, _ => (.error .raised, [])
  | _, fuel + 1, .call what next, past =>
      match world past what with
      | none => (.error .raised, [⟨what, none⟩])
      | some reply =>
          let (out, later) := play world fuel (next reply) (past ++ [⟨what, some reply⟩])
          (out, ⟨what, some reply⟩ :: later)
  | _, fuel + 1, .loop body state next, past =>
      match play world fuel (body state) past with
      | (.error halt, history) => (.error halt, history)
      | (.ok (.inl after), history) =>
          let (out, later) := play world fuel (.loop body after next) (past ++ history)
          (out, history ++ later)
      | (.ok (.inr value), history) =>
          let (out, later) := play world fuel (next value) (past ++ history)
          (out, history ++ later)

/-- What is played is a run. -/
theorem play_runs (world : List (Answered Reply) → (what : Call) → Option (Reply what))
    (fuel : Nat) (prog : Program Call Reply α) (past : List (Answered Reply)) :
    Runs prog (play world fuel prog past).2 (play world fuel prog past).1 := by
  induction fuel generalizing α past with
  | zero => exact .underWay prog
  | succ fuel ih =>
      cases prog with
      | ret value => exact .ret value
      | raise => exact .raise
      | call what next =>
          rw [play]
          cases world past what with
          | none => exact .fails what next
          | some reply => exact .call reply (ih (next reply) _)
      | loop body state next =>
          have turn := ih (body state) past
          rw [play]
          rcases hplay : play world fuel (body state) past with ⟨out, history⟩
          rw [hplay] at turn
          cases out with
          | error halt => exact .halts turn
          | ok value =>
              cases value with
              | inl after => exact .again turn (ih (.loop body after next) _)
              | inr value => exact .leaves turn (ih (next value) _)

/-! ## Watches -/

/-- What a history amounts to, and what may be called then. -/
structure Watch (Reply : Call → Type) (σ : Type) where
  allows : σ → Call → Prop
  after : σ → (what : Call) → Reply what → σ

/-- What a history amounts to. -/
def seen (after : σ → (what : Call) → Reply what → σ) (start : σ) :
    List (Answered Reply) → σ :=
  List.foldl (fun state answered =>
    match answered.reply with
    | some reply => after state answered.what reply
    | none => state) start

/-- Every call comes where the watch allows it. -/
def Watch.Kept (watch : Watch Reply σ) (start : σ) (history : List (Answered Reply)) :
    Prop :=
  ∀ front answered, front ++ [answered] <+: history →
    watch.allows (seen watch.after start front) answered.what

/-- The program keeps to the watch, and where it returns `Q` holds. -/
def wp (watch : Watch Reply τ) : {α : Type} → Program Call Reply α →
    (α → τ → Prop) → τ → Prop
  | _, .ret value, Q, t => Q value t
  | _, .raise, _, _ => True
  | _, .call what next, Q, t =>
      watch.allows t what ∧ ∀ reply, wp watch (next reply) Q (watch.after t what reply)
  | _, .loop (β := β) (σ := σ) body state next, Q, t =>
      ∃ I : σ → τ → Prop, I state t ∧ ∀ state t, I state t →
        wp watch (body state)
          (fun (out : σ ⊕ β) t =>
            out.elim (fun after => I after t) (fun value => wp watch (next value) Q t)) t

section Rules

variable {watch : Watch Reply τ} {t : τ} {Q R : α → τ → Prop}

@[simp]
theorem wp_pure (value : α) :
    wp watch (pure value : Program Call Reply α) Q t ↔ Q value t :=
  Iff.rfl

@[simp]
theorem wp_raise : wp watch (.raise : Program Call Reply α) Q t :=
  trivial

@[simp]
theorem wp_ask (what : Call) {Q : Reply what → τ → Prop} :
    wp watch (ask what : Program Call Reply (Reply what)) Q t ↔
      watch.allows t what ∧ ∀ reply, Q reply (watch.after t what reply) :=
  Iff.rfl

/-- The rule of consequence. -/
theorem wp_mono {prog : Program Call Reply α}
    (weaker : ∀ value t, Q value t → R value t) (holds : wp watch prog Q t) :
    wp watch prog R t := by
  induction prog generalizing t with
  | ret value => exact weaker value t holds
  | raise => trivial
  | call what next ih =>
      exact ⟨holds.1, fun reply => ih reply weaker (holds.2 reply)⟩
  | loop body state next ihbody ihnext =>
      obtain ⟨I, here, turns⟩ := holds
      refine ⟨I, here, fun state t inside => ?_⟩
      refine ihbody state (fun out t after => ?_) (turns state t inside)
      cases out with
      | inl state => exact after
      | inr value => exact ihnext value weaker after

@[simp]
theorem wp_bind {prog : Program Call Reply α} {f : α → Program Call Reply β}
    {Q : β → τ → Prop} :
    wp watch (prog >>= f) Q t ↔
      wp watch prog (fun value t => wp watch (f value) Q t) t := by
  change wp watch (prog.bind f) Q t ↔ _
  induction prog generalizing t with
  | ret value => exact Iff.rfl
  | raise => exact Iff.rfl
  | call what next ih =>
      exact and_congr_right fun _ => forall_congr' fun reply => ih reply
  | loop body state next ihbody ihnext =>
      simp only [Program.bind, wp, ihnext]

/-- A loop whose turns keep an invariant. -/
theorem wp_forever {body : σ → Program Call Reply (σ ⊕ α)} {state : σ}
    (I : σ → τ → Prop) (here : I state t)
    (turns : ∀ state t, I state t → wp watch (body state)
      (fun out t => out.elim (fun after => I after t) (fun value => Q value t)) t) :
    wp watch (forever body state) Q t :=
  ⟨I, here, turns⟩

/-- A stage that fails is the last. -/
theorem wp_stages {stage : Program Call Reply Bool}
    {others : List (Program Call Reply Bool)} {Q : Bool → τ → Prop}
    (fails : ∀ t, Q false t)
    (holds : wp watch stage (fun ok t => ok = true → wp watch (stages others) Q t) t) :
    wp watch (stages (stage :: others)) Q t := by
  rw [stages, wp_bind]
  refine wp_mono (fun ok t rest => ?_) holds
  cases ok with
  | true => exact rest rfl
  | false => exact fails t

end Rules

/-! ## Soundness -/

namespace Watch

variable {watch : Watch Reply τ} {start : τ} {history later : List (Answered Reply)}

theorem kept_nil : watch.Kept start [] := by
  intro front answered early
  simp at early

theorem kept_cons {answered : Answered Reply} :
    watch.Kept start (answered :: history) ↔
      watch.allows start answered.what ∧
        watch.Kept (seen watch.after start [answered]) history := by
  constructor
  · intro kept
    refine ⟨kept [] answered (by simp), fun front next early => ?_⟩
    exact kept (answered :: front) next (by simpa using early)
  · rintro ⟨first, kept⟩ front next early
    cases front with
    | nil =>
        obtain rfl := (List.cons_prefix_cons.mp early).1
        exact first
    | cons head front =>
        obtain ⟨rfl, inside⟩ := List.cons_prefix_cons.mp early
        exact kept front next inside

theorem kept_append : watch.Kept start (history ++ later) ↔
    watch.Kept start history ∧ watch.Kept (seen watch.after start history) later := by
  induction history generalizing start with
  | nil => simp [kept_nil, seen]
  | cons answered history ih =>
      rw [List.cons_append, kept_cons, kept_cons, ih, and_assoc]
      exact Iff.rfl

end Watch

theorem seen_append {after : σ → (what : Call) → Reply what → σ} {start : σ}
    {history later : List (Answered Reply)} :
    seen after start (history ++ later) =
      seen after (seen after start history) later :=
  List.foldl_append

/-- A run of a program with a weakest precondition keeps to the watch. -/
theorem Runs.sound {watch : Watch Reply τ} {prog : Program Call Reply α}
    {history : List (Answered Reply)} {out : Except Halt α}
    (runs : Runs prog history out) {t : τ} {Q : α → τ → Prop}
    (holds : wp watch prog Q t) :
    watch.Kept t history ∧
      ∀ value, out = .ok value → Q value (seen watch.after t history) := by
  induction runs generalizing t with
  | underWay prog => exact ⟨Watch.kept_nil, by simp⟩
  | ret value =>
      refine ⟨Watch.kept_nil, fun other same => ?_⟩
      obtain rfl := Except.ok.inj same
      exact holds
  | raise => exact ⟨Watch.kept_nil, by simp⟩
  | fails what next =>
      exact ⟨Watch.kept_cons.mpr ⟨holds.1, Watch.kept_nil⟩, by simp⟩
  | call reply runs ih =>
      obtain ⟨kept, returns⟩ := ih (holds.2 reply)
      exact ⟨Watch.kept_cons.mpr ⟨holds.1, kept⟩, returns⟩
  | halts turn ih =>
      obtain ⟨I, here, turns⟩ := holds
      exact ⟨(ih (turns _ t here)).1, by simp⟩
  | again turn runs ihturn ihruns =>
      obtain ⟨I, here, turns⟩ := holds
      obtain ⟨first, back⟩ := ihturn (turns _ t here)
      obtain ⟨kept, returns⟩ := ihruns ⟨I, back _ rfl, turns⟩
      rw [seen_append]
      exact ⟨Watch.kept_append.mpr ⟨first, kept⟩, returns⟩
  | leaves turn runs ihturn ihruns =>
      obtain ⟨I, here, turns⟩ := holds
      obtain ⟨first, left⟩ := ihturn (turns _ t here)
      obtain ⟨kept, returns⟩ := ihruns (left _ rfl)
      rw [seen_append]
      exact ⟨Watch.kept_append.mpr ⟨first, kept⟩, returns⟩

end Program

end RiscosBuilder.Library
