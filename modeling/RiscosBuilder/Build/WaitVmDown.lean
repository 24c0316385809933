import RiscosBuilder.Build.Environment
import Mathlib.Data.List.Induction

/-!
# Waiting for the machine to power off

`_wait_vm_down` of `build.py`, and when it kills a guest of sparc64, which may
be writing to its disk without a word.
-/

namespace RiscosBuilder.Build

/-- A character as `re.I` compares it with the small letters of ASCII. -/
def reFold (c : Char) : Char :=
  if c = Char.ofNat 0x130 ∨ c = Char.ofNat 0x131 then 'i'
  else if c = Char.ofNat 0x17f then 's'
  else if c = Char.ofNat 0x212a then 'k'
  else c.toLower

/-- `re.search(pattern, tail, re.I)` for a pattern of small letters and blanks. -/
def searchI (pattern tail : Text) : Bool :=
  decide (pattern <:+: tail.map reFold)

/-- `has halted|press any key to reboot|done halting` is found. -/
def halted (tail : Text) : Bool :=
  searchI (text "has halted") tail ||
    searchI (text "press any key to reboot") tail ||
    searchI (text "done halting") tail

/-- `shutdown:.*poweroff` is found; the point does not stand for a line feed. -/
def shutdownPoweroff (tail : Text) : Bool :=
  (tail.map reFold).tails.any fun rest =>
    decide (text "shutdown:" <+: rest) &&
      decide (text "poweroff" <:+: (rest.drop 9).takeWhile fun c => c ≠ '\n')

/-- `poweroff by root|shutdown:.*poweroff|Powering off` is found. -/
def acknowledged (tail : Text) : Bool :=
  searchI (text "poweroff by root") tail || shutdownPoweroff tail ||
    searchI (text "powering off") tail

/-- What `_serial_tail_line` returns. -/
structure Poll where
  size : Nat
  tail : Text
  deriving DecidableEq, Repr

/-- The variables of the loop. -/
structure Down where
  elapsed : Nat
  stalled : Nat
  lastSize : Int
  poweroffAck : Bool
  deriving DecidableEq, Repr

/-- A turn goes on to the next, or ends in `destroyVM`. -/
inductive DownTurn where
  | goesOn (s : Down)
  | destroys (elapsed : Nat)
  deriving DecidableEq, Repr

/-- The loop ends with QEMU, or in `destroyVM` after a last poll. -/
inductive DownEnd where
  | poweredOff (elapsed : Nat)
  | destroyed (tail : Text) (elapsed : Nat)
  deriving DecidableEq, Repr

section Loop

variable (env : Env) (poll : Nat) (maxSeconds : Int)

/-- The test at the end of a turn. -/
def downLate (s : Down) : DownTurn :=
  if maxSeconds ≤ s.elapsed then .destroys s.elapsed else .goesOn s

/-- A turn of the loop. -/
def downTurn (s : Down) (p : Poll) : DownTurn :=
  let elapsed := s.elapsed + poll
  if halted p.tail then .destroys elapsed
  else
    let poweroffAck := s.poweroffAck ||
      (decide (env .VM_ARCH ≠ text "sparc64") && acknowledged p.tail)
    if (p.size : Int) ≠ s.lastSize then
      downLate maxSeconds ⟨elapsed, 0, p.size, poweroffAck⟩
    else
      let stalled := s.stalled + poll
      if poweroffAck = true ∧ 60 ≤ stalled then .destroys elapsed
      else if env .VM_USE_CONSOLE_BUILD ≠ [] ∧ 300 ≤ stalled then
        .destroys elapsed
      else downLate maxSeconds ⟨elapsed, stalled, s.lastSize, poweroffAck⟩

/-- The loop, with what the polls see until QEMU is gone. -/
def waitVmDown : Down → List Poll → DownEnd
  | s, [] => .poweredOff s.elapsed
  | s, p :: polls =>
      match downTurn env poll maxSeconds s p with
      | .goesOn next => waitVmDown next polls
      | .destroys elapsed => .destroyed p.tail elapsed

end Loop

/-- Before the loop. -/
def Down.start : Down :=
  ⟨0, 0, -1, false⟩

/-! ## Silence -/

/-- The last of the polls see one size for so long. -/
def SilentFor (poll seconds : Nat) (seen : List Poll) : Prop :=
  ∃ front size same, seen = front ++ same ∧ (∀ p ∈ same, p.size = size) ∧
    seconds ≤ poll * (same.length - 1)

/-- What the variables are after these polls of a guest of sparc64. -/
structure Watched (poll : Nat) (seen : List Poll) (s : Down) : Prop where
  elapsed : s.elapsed = poll * seen.length
  ack : s.poweroffAck = false
  last : s.lastSize = (seen.getLast?.map fun p => (p.size : Int)).getD (-1)
  silent : SilentFor poll s.stalled seen
  most : ∀ seconds, SilentFor poll seconds seen → seconds ≤ s.stalled

/-- With one poll more, the polls that count are those before it. -/
theorem silentFor_snoc {poll seconds : Nat} {seen : List Poll} {p : Poll} :
    SilentFor poll seconds (seen ++ [p]) ↔
      ∃ front same, seen = front ++ same ∧ (∀ q ∈ same, q.size = p.size) ∧
        seconds ≤ poll * same.length := by
  constructor
  · rintro ⟨front, size, same, hseen, hsame, hle⟩
    cases same using List.reverseRecOn with
    | nil => exact ⟨seen, [], by simp, by simp, hle⟩
    | append_singleton same q =>
        rw [← List.append_assoc] at hseen
        obtain ⟨hfront, hlast⟩ := List.append_inj' hseen rfl
        obtain rfl := List.singleton_inj.mp hlast
        have hsize : p.size = size := hsame p (by simp)
        refine ⟨front, same, hfront, fun q member => ?_, by simpa using hle⟩
        rw [hsame q (List.mem_append_left _ member), hsize]
  · rintro ⟨front, same, hseen, hsame, hle⟩
    refine ⟨front, p.size, same ++ [p], by simp [hseen], ?_, by simpa using hle⟩
    intro q member
    rcases List.mem_append.mp member with member | member
    · exact hsame q member
    · rw [List.mem_singleton.mp member]

namespace Watched

variable {poll : Nat} {seen : List Poll} {s : Down}

theorem start (poll : Nat) : Watched poll [] .start where
  elapsed := rfl
  ack := rfl
  last := rfl
  silent := ⟨[], 0, [], rfl, by simp, Nat.zero_le _⟩
  most seconds silent := by
    obtain ⟨front, size, same, hseen, -, hle⟩ := silent
    obtain ⟨-, rfl⟩ := List.nil_eq_append_iff.mp hseen
    exact hle

theorem silentFor_iff (watched : Watched poll seen s) {seconds : Nat} :
    SilentFor poll seconds seen ↔ seconds ≤ s.stalled := by
  constructor
  · exact watched.most seconds
  · intro hle
    obtain ⟨front, size, same, hseen, hsame, hstalled⟩ := watched.silent
    exact ⟨front, size, same, hseen, hsame, hle.trans hstalled⟩

/-- The last size is the one that the last polls see. -/
theorem lastSize_eq (watched : Watched poll seen s) {front same : List Poll}
    {size : Nat} (split : seen = front ++ same) (some : same ≠ [])
    (all : ∀ q ∈ same, q.size = size) : s.lastSize = size := by
  have hlast := List.getLast?_eq_some_getLast some
  rw [watched.last, split, List.getLast?_append, hlast, Option.some_or,
    Option.map_some, Option.getD_some, all _ (List.getLast_mem some)]

/-- A poll that sees another size. -/
theorem grow (watched : Watched poll seen s) {p : Poll}
    (changed : (p.size : Int) ≠ s.lastSize) :
    Watched poll (seen ++ [p]) ⟨s.elapsed + poll, 0, p.size, false⟩ where
  elapsed := by simp [watched.elapsed, Nat.mul_add]
  ack := rfl
  last := by simp
  silent := ⟨seen, p.size, [p], rfl, by simp, Nat.zero_le _⟩
  most seconds silent := by
    obtain ⟨front, same, hseen, hsame, hle⟩ := silentFor_snoc.mp silent
    cases same with
    | nil => exact hle
    | cons q same =>
        have hlast := watched.lastSize_eq hseen (by simp) hsame
        exact absurd hlast.symm changed

/-- A poll that sees what the one before has seen. -/
theorem stall (watched : Watched poll seen s) {p : Poll}
    (unchanged : (p.size : Int) = s.lastSize) :
    Watched poll (seen ++ [p])
      ⟨s.elapsed + poll, s.stalled + poll, s.lastSize, false⟩ where
  elapsed := by simp [watched.elapsed, Nat.mul_add]
  ack := rfl
  last := by simp [unchanged]
  silent := by
    obtain ⟨front, size, same, hseen, hsame, hle⟩ := watched.silent
    cases same with
    | nil =>
        cases seen using List.reverseRecOn with
        | nil =>
            have hlast := watched.last
            simp only [List.getLast?_nil, Option.map_none, Option.getD_none]
              at hlast
            omega
        | append_singleton earlier q =>
            have hlast : s.lastSize = q.size :=
              watched.lastSize_eq rfl (List.cons_ne_nil q []) (by simp)
            refine silentFor_snoc.mpr ⟨earlier, [q], rfl, ?_, ?_⟩
            · intro other member
              rw [List.mem_singleton.mp member]
              omega
            · have hzero : s.stalled ≤ 0 := hle
              simp only [List.length_singleton, Nat.mul_one]
              omega
    | cons q same =>
        have hlast := watched.lastSize_eq hseen (List.cons_ne_nil q same) hsame
        have hsize : size = p.size := by omega
        refine silentFor_snoc.mpr ⟨front, q :: same, hseen, hsize ▸ hsame, ?_⟩
        rw [List.length_cons, Nat.mul_succ]
        exact Nat.add_le_add_right hle poll
  most seconds silent := by
    obtain ⟨front, same, hseen, hsame, hle⟩ := silentFor_snoc.mp silent
    cases same with
    | nil => exact hle.trans (by simp)
    | cons q same =>
        have hmost := watched.most (poll * same.length)
          ⟨front, p.size, q :: same, hseen, hsame, Nat.le_refl _⟩
        rw [List.length_cons, Nat.mul_succ] at hle
        simp only
        omega

end Watched

/-! ## The kill -/

section Sparc

variable {env : Env} {poll : Nat} {maxSeconds : Int}

/-- A turn of the wait for a guest of sparc64. -/
theorem downTurn_cases (sparc : env .VM_ARCH = text "sparc64")
    {seen : List Poll} {s : Down} (watched : Watched poll seen s) (p : Poll) :
    (halted p.tail = true ∧
      downTurn env poll maxSeconds s p = .destroys (s.elapsed + poll)) ∨
    halted p.tail = false ∧ ∃ next, Watched poll (seen ++ [p]) next ∧
      (env .VM_USE_CONSOLE_BUILD ≠ [] ∧ 300 ≤ next.stalled ∧
          downTurn env poll maxSeconds s p = .destroys next.elapsed ∨
        (env .VM_USE_CONSOLE_BUILD = [] ∨ next.stalled < 300) ∧
          downTurn env poll maxSeconds s p = downLate maxSeconds next) := by
  unfold downTurn
  cases banner : halted p.tail with
  | true => exact Or.inl ⟨rfl, rfl⟩
  | false =>
      refine Or.inr ⟨rfl, ?_⟩
      simp only [Bool.false_eq_true, if_false, sparc, ne_eq, not_true_eq_false,
        decide_false, Bool.false_and, Bool.or_false, watched.ack, false_and]
      by_cases unchanged : (p.size : Int) = s.lastSize
      · refine ⟨_, watched.stall unchanged, ?_⟩
        rw [if_neg (not_not.mpr unchanged)]
        by_cases dead : ¬ env .VM_USE_CONSOLE_BUILD = [] ∧ 300 ≤ s.stalled + poll
        · exact Or.inl ⟨dead.1, dead.2, if_pos dead⟩
        · refine Or.inr ⟨?_, if_neg dead⟩
          by_cases console : env .VM_USE_CONSOLE_BUILD = []
          · exact Or.inl console
          · exact Or.inr (Nat.not_le.mp fun long => dead ⟨console, long⟩)
      · refine ⟨_, watched.grow unchanged, Or.inr ⟨Or.inr (by simp), ?_⟩⟩
        rw [if_pos unchanged]

/-- So far no banner has come, and there is time left. -/
def Undecided (poll : Nat) (maxSeconds : Int) (seen : List Poll) : Prop :=
  (∀ p ∈ seen, halted p.tail = false) ∧
    ((poll * seen.length : Nat) : Int) < maxSeconds

/-- What holds behind `seen`, whatever part of the polls is added to it. -/
def Onwards (P : List Poll → Prop) (seen polls : List Poll) : Prop :=
  ∀ more, more <+: polls → more ≠ [] → P (seen ++ more)

theorem onwards_cons {P : List Poll → Prop} {seen polls : List Poll} {p : Poll} :
    Onwards P seen (p :: polls) ↔
      P (seen ++ [p]) ∧ Onwards P (seen ++ [p]) polls := by
  constructor
  · intro all
    refine ⟨all [p] (by simp) (by simp), fun more within _ => ?_⟩
    rw [List.append_assoc]
    exact all (p :: more) (List.cons_prefix_cons.mpr ⟨rfl, within⟩) (by simp)
  · rintro ⟨here, later⟩ more within some
    rcases List.prefix_cons_iff.mp within with rfl | ⟨rest, rfl, hrest⟩
    · exact absurd rfl some
    · rw [← List.singleton_append, ← List.append_assoc]
      by_cases last : rest = []
      · simpa [last] using here
      · exact later rest hrest last

/-- The log does not fall silent as long as the wait has to go on. -/
def Speaks (poll : Nat) (maxSeconds : Int) (seen : List Poll) : Prop :=
  Undecided poll maxSeconds seen → ¬ SilentFor poll 300 seen

theorem speaks_of_banner {all : List Poll} {p : Poll} (member : p ∈ all)
    (banner : halted p.tail = true) : Speaks poll maxSeconds all := by
  rintro ⟨quiet, -⟩ -
  rw [quiet p member] at banner
  exact Bool.false_ne_true banner

theorem speaks_of_late {seen : List Poll}
    (late : maxSeconds ≤ (poll * seen.length : Nat)) (more : List Poll) :
    Speaks poll maxSeconds (seen ++ more) := by
  rintro ⟨-, early⟩ -
  have hle : poll * seen.length ≤ poll * (seen ++ more).length :=
    Nat.mul_le_mul_left poll (by simp)
  omega

theorem Watched.kills_iff (sparc : env .VM_ARCH = text "sparc64")
    (polls : List Poll) {seen : List Poll} {s : Down}
    (watched : Watched poll seen s) (quiet : ∀ p ∈ seen, halted p.tail = false) :
    (∀ tail elapsed,
      waitVmDown env poll maxSeconds s polls = .destroyed tail elapsed →
      halted tail = true ∨ maxSeconds ≤ elapsed) ↔
    env .VM_USE_CONSOLE_BUILD = [] ∨
      Onwards (Speaks poll maxSeconds) seen polls := by
  induction polls generalizing seen s with
  | nil =>
      refine iff_of_true (fun tail elapsed ends => ?_) (Or.inr ?_)
      · simp [waitVmDown] at ends
      · exact fun more within some => absurd (List.prefix_nil.mp within) some
  | cons p polls ih =>
      rw [waitVmDown]
      rcases @downTurn_cases env poll maxSeconds sparc seen s watched p with
        ⟨banner, hturn⟩ | ⟨plain, next, hnext, hturn⟩
      · rw [hturn]
        refine iff_of_true (fun tail elapsed ends => ?_) (Or.inr ?_)
        · cases ends
          exact Or.inl banner
        · refine onwards_cons.mpr ⟨?_, fun more _ _ => ?_⟩
          · exact speaks_of_banner (by simp) banner
          · exact speaks_of_banner (by simp) banner
      · have hquiet : ∀ q ∈ seen ++ [p], halted q.tail = false := by
          intro q member
          rcases List.mem_append.mp member with earlier | last
          · exact quiet q earlier
          · rwa [List.mem_singleton.mp last]
        have hlate : maxSeconds ≤ next.elapsed →
            Onwards (Speaks poll maxSeconds) seen (p :: polls) := by
          intro late
          rw [hnext.elapsed] at late
          refine onwards_cons.mpr ⟨?_, fun more _ _ => speaks_of_late late more⟩
          simpa using speaks_of_late late []
        rcases hturn with ⟨console, long, hturn⟩ | ⟨short, hturn⟩
        · rw [hturn]
          simp only [console, false_or]
          constructor
          · intro right
            rcases right p.tail next.elapsed rfl with banner | late
            · rw [plain] at banner
              exact absurd banner Bool.false_ne_true
            · exact hlate late
          · intro speaks tail elapsed ends
            cases ends
            refine Or.inr (Int.not_lt.mp fun early => ?_)
            rw [hnext.elapsed] at early
            exact (onwards_cons.mp speaks).1 ⟨hquiet, early⟩
              (hnext.silentFor_iff.mpr long)
        · rw [hturn, downLate]
          by_cases late : maxSeconds ≤ next.elapsed
          · rw [if_pos late]
            refine iff_of_true (fun tail elapsed ends => ?_) (Or.inr (hlate late))
            cases ends
            exact Or.inr late
          · rw [if_neg late]
            refine (ih hnext hquiet).trans ?_
            rw [onwards_cons]
            rcases short with plainBuild | short
            · simp [plainBuild]
            · have hspeaks : Speaks poll maxSeconds (seen ++ [p]) := by
                rintro - silent
                have hle := hnext.silentFor_iff.mp silent
                omega
              simp [hspeaks]

/--
On sparc64 a guest is killed only at its banner or when its time is over, just
if the build has no console, or if no poll before the banner and the end of the
time is the last of those that see one size for 300 seconds.
-/
theorem sparc64_kill_iff (sparc : env .VM_ARCH = text "sparc64")
    (polls : List Poll) :
    (∀ tail elapsed,
      waitVmDown env poll maxSeconds .start polls = .destroyed tail elapsed →
      halted tail = true ∨ maxSeconds ≤ elapsed) ↔
    env .VM_USE_CONSOLE_BUILD = [] ∨
      ∀ seen, seen <+: polls → Undecided poll maxSeconds seen →
        ¬ SilentFor poll 300 seen := by
  rw [(Watched.start poll).kills_iff sparc polls (by simp)]
  refine or_congr_right ⟨fun speaks seen within => ?_, fun speaks more within _ => ?_⟩
  · by_cases none : seen = []
    · rintro - silent
      rw [none, (Watched.start poll).silentFor_iff] at silent
      exact absurd silent (by decide)
    · exact speaks seen within none
  · exact speaks more within

/-- The settings of a build for sparc64. -/
def sparcEnv (console : Text) : Env
  | .VM_ARCH => text "sparc64"
  | .VM_USE_CONSOLE_BUILD => console
  | _ => []

/-- Polls of a guest that writes to its disk and says nothing. -/
def syncing (count : Nat) : List Poll :=
  List.replicate count ⟨100, text "syncing disks..."⟩

/-- The guest has halted after two polls. -/
def halting : List Poll :=
  syncing 2 ++ [⟨240, text "The operating system has halted."⟩]

/-- With a console it is killed at its banner. -/
theorem sparc64_kill_iff_screen :
    waitVmDown (sparcEnv (text "1")) 20 1200 .start halting =
        .destroyed (text "The operating system has halted.") 60 ∧
      ∀ tail elapsed,
        waitVmDown (sparcEnv (text "1")) 20 1200 .start halting =
          .destroyed tail elapsed →
        halted tail = true ∨ (1200 : Int) ≤ elapsed := by
  refine ⟨by decide, (sparc64_kill_iff rfl halting).mpr (Or.inr ?_)⟩
  rintro seen early - ⟨front, size, same, rfl, -, long⟩
  have hlength := early.length_le
  rw [List.length_append, show halting.length = 3 from rfl] at hlength
  omega

/-- With a console it is killed at the sixteenth poll. -/
theorem sparc64_kill_iff_not_silent :
    ¬ ∀ polls tail elapsed,
      waitVmDown (sparcEnv (text "1")) 20 1200 .start polls =
        .destroyed tail elapsed →
      halted tail = true ∨ (1200 : Int) ≤ elapsed := by
  intro right
  have hkilled : waitVmDown (sparcEnv (text "1")) 20 1200 .start (syncing 16) =
      .destroyed (text "syncing disks...") 320 := by
    decide
  rcases right _ _ _ hkilled with banner | late
  · exact absurd banner (by decide)
  · exact absurd late (by decide)

end Sparc

end RiscosBuilder.Build
