import RiscosBuilder.Agent.Telnet

/-!
# The builder's end of the telnet connection

`_telnet_eat_iac` of `build.py`, which takes telnet framing off one result of
`recv` at a time and keeps nothing for the next.
-/

namespace RiscosBuilder.Build

open RiscosBuilder.Agent

/-- What is appended to `out`, and what is handed to `sock.sendall`. -/
structure Eaten where
  out : List UInt8
  sent : List (List UInt8)
  deriving DecidableEq, Repr

/-- Every option is refused. -/
def refuse (cmd opt : UInt8) : List (List UInt8) :=
  if cmd = DO then [[IAC, WONT, opt]]
  else if cmd = WILL then [[IAC, DONT, opt]]
  else []

/--
One turn of the `while i < n` loop of `_telnet_eat_iac`, from `data[i:]` to the
next `data[i:]`; `none` when the loop is left.  The inner loop behind `SB` is
the one of the agent, but what has no end is skipped here.
-/
def eatNext : List UInt8 → Option (Eaten × List UInt8)
  | [] => none
  | b :: tail =>
      if b ≠ IAC then some (⟨[b], []⟩, tail)
      else
        match tail with
        | [] => none
        | cmd :: tail =>
            if IsNegotiation cmd ∧ tail ≠ [] then
              some (⟨[], refuse cmd (tail.headD 0)⟩, tail.drop 1)
            else if cmd = SB then
              some (⟨[], []⟩, (skipSubnegotiation tail).getD [])
            else if cmd = IAC then some (⟨[IAC], []⟩, tail)
            else some (⟨[], []⟩, tail)

/-- So many turns of the loop at most. -/
def eatUpTo : Nat → List UInt8 → Eaten
  | 0, _ => ⟨[], []⟩
  | fuel + 1, data =>
      match eatNext data with
      | none => ⟨[], []⟩
      | some (eaten, rest) =>
          ⟨eaten.out ++ (eatUpTo fuel rest).out,
            eaten.sent ++ (eatUpTo fuel rest).sent⟩

/-- `_telnet_eat_iac`. -/
def telnetEatIac (data : List UInt8) : Eaten :=
  eatUpTo data.length data

/-- What the calls for some results of `recv` append to `out`. -/
def readBack (chunks : List (List UInt8)) : List UInt8 :=
  chunks.flatMap fun chunk => (telnetEatIac chunk).out

/-! ## One turn after the other -/

theorem eatNext_plain {b : UInt8} (plain : b ≠ IAC) (tail : List UInt8) :
    eatNext (b :: tail) = some (⟨[b], []⟩, tail) := by
  simp [eatNext, plain]

theorem eatNext_escaped (tail : List UInt8) :
    eatNext (IAC :: IAC :: tail) = some (⟨[IAC], []⟩, tail) := by
  have hnegotiation : ¬ IsNegotiation IAC := by decide
  have hbegin : ¬ IAC = SB := by decide
  simp [eatNext, hnegotiation, hbegin]

theorem eatNext_negotiation {cmd : UInt8} (takes : IsNegotiation cmd)
    (opt : UInt8) (tail : List UInt8) :
    eatNext (IAC :: cmd :: opt :: tail) = some (⟨[], refuse cmd opt⟩, tail) := by
  simp [eatNext, takes]

/-- A negotiation whose option has not come is taken for a two-byte command. -/
theorem eatNext_short {cmd : UInt8} (takes : IsNegotiation cmd) :
    eatNext [IAC, cmd] = some (⟨[], []⟩, []) := by
  have hbegin : cmd ≠ SB := by
    rcases takes with rfl | rfl | rfl | rfl <;> decide
  simp [eatNext, takes.ne_IAC, hbegin]

/-- What a turn can do: take a byte, take an escape, or skip something. -/
theorem eatNext_cases {data rest : List UInt8} {eaten : Eaten}
    (taken : eatNext data = some (eaten, rest)) :
    (∃ b, b ≠ IAC ∧ data = b :: rest ∧ eaten.out = [b]) ∨
      (data = IAC :: IAC :: rest ∧ eaten.out = [IAC]) ∨
      (rest.length < data.length ∧ rest <:+ data ∧ eaten.out = []) := by
  cases data with
  | nil => simp [eatNext] at taken
  | cons b tail =>
      by_cases plain : b = IAC
      · subst plain
        cases tail with
        | nil => simp [eatNext] at taken
        | cons cmd tail =>
            simp only [eatNext, ne_eq, not_true_eq_false, if_false] at taken
            split at taken
            · next option =>
                simp only [Option.some.injEq, Prod.mk.injEq] at taken
                obtain ⟨rfl, rfl⟩ := taken
                refine Or.inr (Or.inr ⟨?_, ?_, rfl⟩)
                · simp only [List.length_drop, List.length_cons]
                  omega
                · exact (List.drop_suffix 1 tail).trans
                    ((List.suffix_cons cmd tail).trans (List.suffix_cons IAC _))
            · split at taken
              · simp only [Option.some.injEq, Prod.mk.injEq] at taken
                obtain ⟨rfl, rfl⟩ := taken
                refine Or.inr (Or.inr ?_)
                cases found : skipSubnegotiation tail with
                | none => simp
                | some rest =>
                    have hlength := skipSubnegotiation_length found
                    obtain ⟨front, hfront⟩ := skipSubnegotiation_eq_some found
                    refine ⟨?_, ⟨IAC :: cmd :: front ++ [IAC, SE], ?_⟩, rfl⟩
                    · simp only [Option.getD_some, List.length_cons]
                      omega
                    · simp [hfront]
              · split at taken
                · next same =>
                    simp only [Option.some.injEq, Prod.mk.injEq] at taken
                    obtain ⟨rfl, rfl⟩ := taken
                    exact Or.inr (Or.inl ⟨by rw [same], rfl⟩)
                · simp only [Option.some.injEq, Prod.mk.injEq] at taken
                  obtain ⟨rfl, rfl⟩ := taken
                  refine Or.inr (Or.inr ⟨?_, ?_, rfl⟩)
                  · simp only [List.length_cons]
                    omega
                  · exact (List.suffix_cons cmd tail).trans
                      (List.suffix_cons IAC _)
      · rw [eatNext_plain plain, Option.some.injEq, Prod.mk.injEq] at taken
        obtain ⟨rfl, rfl⟩ := taken
        exact Or.inl ⟨b, plain, rfl, rfl⟩

theorem eatNext_length {data rest : List UInt8} {eaten : Eaten}
    (taken : eatNext data = some (eaten, rest)) : rest.length < data.length := by
  rcases eatNext_cases taken with
    ⟨b, -, rfl, -⟩ | ⟨rfl, -⟩ | ⟨hlength, -⟩
  · exact Nat.lt_succ_self _
  · simp only [List.length_cons]
    omega
  · exact hlength

/-- As many turns as there are bytes are enough. -/
theorem eatUpTo_eq {fuel : Nat} {data : List UInt8}
    (enough : data.length ≤ fuel) : eatUpTo fuel data = telnetEatIac data := by
  unfold telnetEatIac
  induction fuel using Nat.strongRecOn generalizing data with
  | _ fuel ih =>
      cases data with
      | nil => cases fuel <;> rfl
      | cons first others =>
          cases fuel with
          | zero => simp at enough
          | succ fuel =>
              simp only [List.length_cons, eatUpTo]
              cases hnext : eatNext (first :: others) with
              | none => rfl
              | some found =>
                  obtain ⟨eaten, rest⟩ := found
                  have hlt := eatNext_length hnext
                  simp only [List.length_cons] at hlt enough
                  have hleft := @ih fuel (by omega) rest (by omega)
                  have hright := @ih others.length (by omega) rest (by omega)
                  simp only [hleft, hright]

theorem out_of_some {data rest : List UInt8} {eaten : Eaten}
    (taken : eatNext data = some (eaten, rest)) :
    (telnetEatIac data).out = eaten.out ++ (telnetEatIac rest).out := by
  have hlt := eatNext_length taken
  have hstep : telnetEatIac data = eatUpTo ((data.length - 1) + 1) data := by
    rw [Nat.sub_add_cancel (by omega)]
    rfl
  rw [hstep]
  simp only [eatUpTo, taken]
  rw [eatUpTo_eq (by omega)]

theorem out_of_none {data : List UInt8} (stuck : eatNext data = none) :
    (telnetEatIac data).out = [] := by
  unfold telnetEatIac
  cases data with
  | nil => rfl
  | cons first others => simp [eatUpTo, stuck]

@[simp] theorem out_nil : (telnetEatIac []).out = [] :=
  rfl

@[simp] theorem out_lone : (telnetEatIac [IAC]).out = [] :=
  rfl

theorem out_plain {b : UInt8} (plain : b ≠ IAC) (tail : List UInt8) :
    (telnetEatIac (b :: tail)).out = b :: (telnetEatIac tail).out :=
  out_of_some (eatNext_plain plain tail)

theorem out_escaped (tail : List UInt8) :
    (telnetEatIac (IAC :: IAC :: tail)).out = IAC :: (telnetEatIac tail).out :=
  out_of_some (eatNext_escaped tail)

theorem out_negotiation {cmd : UInt8} (takes : IsNegotiation cmd) (opt : UInt8)
    (tail : List UInt8) :
    (telnetEatIac (IAC :: cmd :: opt :: tail)).out = (telnetEatIac tail).out :=
  out_of_some (eatNext_negotiation takes opt tail)

theorem out_short {cmd : UInt8} (takes : IsNegotiation cmd) :
    (telnetEatIac [IAC, cmd]).out = [] :=
  out_of_some (eatNext_short takes)

/-- Induction along the turns of the loop. -/
theorem eat_induction {motive : List UInt8 → Prop}
    (stuck : ∀ data, eatNext data = none → motive data)
    (taken : ∀ data eaten rest, eatNext data = some (eaten, rest) →
      motive rest → motive data) (data : List UInt8) : motive data := by
  induction hlength : data.length using Nat.strongRecOn generalizing data with
  | _ size ih =>
      cases hnext : eatNext data with
      | none => exact stuck data hnext
      | some found =>
          obtain ⟨eaten, rest⟩ := found
          have hlt := eatNext_length hnext
          exact taken data eaten rest hnext (ih rest.length (by omega) rest rfl)

end RiscosBuilder.Build
