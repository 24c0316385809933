import RiscosBuilder.Agent.CommandHandover

/-!
# The telnet grammar

The items that a telnet stream is made of, their encoding, and what
`Telnet._fill` decodes of them.  Everything comes out as it went in, but for a
subnegotiation with the bytes `IAC SE` among its parameters: what stands behind
them becomes payload.
-/

namespace RiscosBuilder.Agent.Telnet

/-- `c` in a command `IAC c` of two bytes. -/
structure IsTwoByte (cmd : UInt8) : Prop where
  escape : cmd ≠ IAC
  negotiation : ¬ IsNegotiation cmd
  begins : cmd ≠ SB
  ends : cmd ≠ SE

/-- An item of a telnet stream. -/
inductive Item where
  | data (byte : UInt8)
  | negotiation (cmd opt : UInt8) (takes : IsNegotiation cmd) (plain : opt ≠ IAC)
  | command (cmd : UInt8) (two : IsTwoByte cmd)
  | subnegotiation (parameters : List UInt8)

namespace Item

/-- The item on the wire. -/
def encode : Item → List UInt8
  | .data byte => escape [byte]
  | .negotiation cmd opt _ _ => [IAC, cmd, opt]
  | .command cmd _ => [IAC, cmd]
  | .subnegotiation parameters =>
      IAC :: SB :: escape parameters ++ [IAC, SE]

/-- What of it is payload. -/
def payload : Item → List UInt8
  | .data byte => [byte]
  | _ => []

/-- The answer it is given. -/
def answers : Item → List (List UInt8)
  | .negotiation cmd opt _ _ => [negotiate cmd opt]
  | _ => []

/-- The parameters behind the first `IAC SE` among them. -/
def leak : Item → List UInt8
  | .subnegotiation parameters => (skipSubnegotiation parameters).getD []
  | _ => []

end Item

/-- The items one behind the other. -/
def encodeAll (items : List Item) : List UInt8 :=
  items.flatMap Item.encode

theorem escape_cons (ch : UInt8) (data : List UInt8) :
    escape (ch :: data) = escape [ch] ++ escape data := by
  simp [escape]

theorem escape_plain {ch : UInt8} (plain : ch ≠ IAC) : escape [ch] = [ch] := by
  simp [escape, plain]

theorem escape_IAC : escape [IAC] = [IAC, IAC] :=
  rfl

theorem skipSubnegotiation_of_ne {first second : UInt8} {tail : List UInt8}
    (other : ¬ (first = IAC ∧ second = SE)) :
    skipSubnegotiation (first :: second :: tail) =
      skipSubnegotiation (second :: tail) := by
  rw [skipSubnegotiation, if_neg other]

theorem skipSubnegotiation_end (tail : List UInt8) :
    skipSubnegotiation (IAC :: SE :: tail) = some tail := by
  rw [skipSubnegotiation, if_pos ⟨rfl, rfl⟩]

/-- A byte in front of a doubled one ends nothing unless that one is `SE`. -/
theorem skipSubnegotiation_cons_escape {first second : UInt8}
    (other : ¬ (first = IAC ∧ second = SE)) (tail : List UInt8) :
    skipSubnegotiation (first :: (escape [second] ++ tail)) =
      skipSubnegotiation (escape [second] ++ tail) := by
  by_cases plain : second = IAC
  · subst plain
    exact skipSubnegotiation_of_ne (by rintro ⟨-, same⟩; exact absurd same (by decide))
  · rw [escape_plain plain]
    exact skipSubnegotiation_of_ne other

/-- The scan for the end takes the first `IAC SE` of the parameters for it. -/
theorem skipSubnegotiation_escape (parameters rest : List UInt8) :
    skipSubnegotiation (escape parameters ++ IAC :: SE :: rest) =
      some (((skipSubnegotiation parameters).map fun leak =>
        escape leak ++ IAC :: SE :: rest).getD rest) := by
  have hIAC : ∀ tail, skipSubnegotiation (IAC :: IAC :: tail) =
      skipSubnegotiation (IAC :: tail) := fun tail =>
    skipSubnegotiation_of_ne (by rintro ⟨-, same⟩; exact absurd same (by decide))
  induction parameters using skipSubnegotiation.induct with
  | case1 first second tail found =>
      obtain ⟨rfl, rfl⟩ := found
      rw [escape_cons IAC, escape_cons SE, escape_IAC,
        escape_plain (show SE ≠ IAC by decide), skipSubnegotiation_end]
      exact (hIAC _).trans (skipSubnegotiation_end _)
  | case2 first second tail other ih =>
      rw [skipSubnegotiation_of_ne other, ← ih, escape_cons first,
        escape_cons second, List.append_assoc, List.append_assoc]
      by_cases plain : first = IAC
      · subst plain
        exact (hIAC _).trans (skipSubnegotiation_cons_escape other _)
      · rw [escape_plain plain]
        exact skipSubnegotiation_cons_escape other _
  | case3 parameters short =>
      have hshort : skipSubnegotiation parameters = none := by
        unfold skipSubnegotiation
        split
        · exact absurd rfl (short _ _ _)
        · rfl
      rw [hshort]
      cases parameters with
      | nil => exact skipSubnegotiation_end rest
      | cons first tail =>
          cases tail with
          | nil =>
              by_cases plain : first = IAC
              · subst plain
                exact (hIAC _).trans ((hIAC _).trans (skipSubnegotiation_end rest))
              · rw [escape_plain plain]
                exact (skipSubnegotiation_of_ne fun same => plain same.1).trans
                  (skipSubnegotiation_end rest)
          | cons second tail => exact absurd rfl (short first second tail)

/-- One item in front of others: its payload, and what it leaks. -/
theorem scan_encode_append (item : Item) (rest : List UInt8) :
    scan (item.encode ++ rest) =
      ⟨item.payload ++ item.leak ++ (scan rest).out,
        item.answers ++ (scan rest).reply, (scan rest).raw⟩ := by
  cases item with
  | data byte => exact scan_escape_append [byte] rest
  | negotiation cmd opt takes plain =>
      exact scan_of_scanNext (scanNext_negotiation takes opt rest)
  | command cmd two =>
      exact scan_of_scanNext
        (scanNext_command two.escape two.negotiation two.begins rest)
  | subnegotiation parameters =>
      have hskip := skipSubnegotiation_escape parameters rest
      have hcommand : ∀ tail, scan (IAC :: SE :: tail) = scan tail := fun tail =>
        scan_of_scanNext (scanNext_command (by decide) (by decide) (by decide)
          tail)
      have hscan : scan ((Item.subnegotiation parameters).encode ++ rest) =
          scan (((skipSubnegotiation parameters).map fun leak =>
            escape leak ++ IAC :: SE :: rest).getD rest) := by
        simp only [Item.encode, List.cons_append, List.append_assoc,
          List.nil_append]
        rw [scan_of_scanNext (scanNext_subnegotiation hskip)]
        rfl
      rw [hscan]
      cases hleak : skipSubnegotiation parameters with
      | none => simp [Item.payload, Item.leak, Item.answers, hleak]
      | some leak =>
          simp [Item.payload, Item.leak, Item.answers, hleak,
            scan_escape_append, hcommand]

theorem scan_encodeAll (items : List Item) :
    scan (encodeAll items) =
      ⟨items.flatMap fun item => item.payload ++ item.leak,
        items.flatMap Item.answers, []⟩ := by
  induction items with
  | nil => rfl
  | cons item items ih =>
      have hcons : encodeAll (item :: items) =
          item.encode ++ encodeAll items := List.flatMap_cons
      rw [hcons, scan_encode_append, ih]
      rfl

/-! ## When the grammar is decoded -/

/-- `_fill` has taken the items apart: payload, answers, and nothing left. -/
structure Decodes (items : List Item) (chan : Telnet) : Prop where
  payload : chan.buf = items.flatMap Item.payload
  answers : chan.sock.sent = (items.flatMap Item.answers).flatten
  remainder : chan.raw = []

/-- `IAC SE` occurs at the very end of the parameters only, if at all. -/
def EndsOnly (parameters : List UInt8) : Prop :=
  ∀ front back, parameters = front ++ IAC :: SE :: back → back = []

/-- The first occurrence is found, so it leaves at least what any other does. -/
theorem skipSubnegotiation_of_occurs (front back : List UInt8) :
    ∃ leak, skipSubnegotiation (front ++ IAC :: SE :: back) = some leak ∧
      back.length ≤ leak.length := by
  induction front with
  | nil => exact ⟨back, skipSubnegotiation_end back, le_rfl⟩
  | cons first front ih =>
      obtain ⟨leak, hleak, hlength⟩ := ih
      cases front with
      | nil =>
          by_cases same : first = IAC ∧ IAC = SE
          · exact absurd same.2 (by decide)
          · exact ⟨leak, (skipSubnegotiation_of_ne same).trans hleak, hlength⟩
      | cons second front =>
          by_cases same : first = IAC ∧ second = SE
          · obtain ⟨rfl, rfl⟩ := same
            refine ⟨front ++ IAC :: SE :: back, skipSubnegotiation_end _, ?_⟩
            simp only [List.length_append, List.length_cons]
            omega
          · exact ⟨leak, (skipSubnegotiation_of_ne same).trans hleak, hlength⟩

theorem leak_eq_nil_iff (parameters : List UInt8) :
    (Item.subnegotiation parameters).leak = [] ↔ EndsOnly parameters := by
  simp only [Item.leak]
  constructor
  · rintro none front back rfl
    obtain ⟨leak, hleak, hlength⟩ := skipSubnegotiation_of_occurs front back
    rw [hleak, Option.getD_some] at none
    rw [none] at hlength
    exact List.length_eq_zero_iff.mp (Nat.le_zero.mp hlength)
  · intro endsOnly
    cases found : skipSubnegotiation parameters with
    | none => rfl
    | some leak =>
        obtain ⟨front, hfront⟩ := skipSubnegotiation_eq_some found
        exact endsOnly front leak hfront

/-- Leaked bytes come on top of the payload, so that nothing makes up for them. -/
theorem leaks_eq_nil_iff (items : List Item) :
    (items.flatMap fun item => item.payload ++ item.leak) =
        items.flatMap Item.payload ↔ ∀ item ∈ items, item.leak = [] := by
  have hlength : ∀ others : List Item, (others.flatMap Item.payload).length ≤
      (others.flatMap fun item => item.payload ++ item.leak).length := by
    intro others
    induction others with
    | nil => exact le_rfl
    | cons item others ih =>
        simp only [List.flatMap_cons, List.length_append]
        omega
  induction items with
  | nil => simp
  | cons item items ih =>
      simp only [List.flatMap_cons, List.mem_cons, forall_eq_or_imp]
      constructor
      · intro same
        have hlater := hlength items
        have hsum := congrArg List.length same
        simp only [List.length_append] at hsum
        have hnone : item.leak = [] :=
          List.length_eq_zero_iff.mp (by omega)
        rw [hnone, List.append_nil, List.append_cancel_left_eq] at same
        exact ⟨hnone, ih.mp same⟩
      · rintro ⟨hnone, hothers⟩
        rw [hnone, List.append_nil, ih.mpr hothers]

/--
One chunk with the encoding of the items decodes to exactly what they are made
of exactly when no subnegotiation has `IAC SE` in front of other parameters.
-/
theorem grammar_decodes {items : List Item} {chunk : Chunk}
    (sent : chunk.1 = encodeAll items) (ending : Ending) (sends : List Bool) :
    Decodes items (opened [chunk] ending sends).fill ↔
      ∀ parameters, Item.subnegotiation parameters ∈ items →
        EndsOnly parameters := by
  have filled := fill_filled
    (show (opened [chunk] ending sends).sock.arrivals = [chunk] from rfl)
  have hscan : scan ((opened [chunk] ending sends).raw ++ wire [chunk]) =
      ⟨items.flatMap fun item => item.payload ++ item.leak,
        items.flatMap Item.answers, []⟩ := by
    rw [← scan_encodeAll, ← sent]
    simp [opened, connect]
  have hbuf := filled.buf
  have hsent := filled.sent
  have hraw := filled.raw
  rw [hscan] at hbuf hsent hraw
  have hleaks : (∀ item ∈ items, item.leak = []) ↔
      ∀ parameters, Item.subnegotiation parameters ∈ items →
        EndsOnly parameters := by
    constructor
    · intro none parameters member
      exact (leak_eq_nil_iff parameters).mp (none _ member)
    · intro endsOnly item member
      cases item with
      | subnegotiation parameters =>
          exact (leak_eq_nil_iff parameters).mpr (endsOnly _ member)
      | _ => rfl
  rw [← hleaks, ← leaks_eq_nil_iff]
  constructor
  · intro decodes
    exact hbuf.symm.trans decodes.payload
  · intro same
    exact ⟨hbuf.trans same, hsent, hraw⟩

/-- A subnegotiation with the parameter `IAC`, and the data byte `A`. -/
theorem grammar_decodes_escape :
    Decodes [.subnegotiation [IAC], .data 65]
      (opened [⟨[IAC, SB, IAC, IAC, IAC, SE, 65], by decide⟩] .closed
        []).fill :=
  (@grammar_decodes [.subnegotiation [IAC], .data 65]
    ⟨[IAC, SB, IAC, IAC, IAC, SE, 65], by decide⟩ rfl .closed []).mpr (by
      intro parameters member front back same
      simp only [List.mem_cons, Item.subnegotiation.injEq, reduceCtorEq,
        List.not_mem_nil, or_self, or_false] at member
      have hlength := congrArg List.length (member.symm.trans same)
      simp only [List.length_append, List.length_cons, List.length_nil]
        at hlength
      omega)

/-- The parameters `IAC`, `SE`, `A`: the last of them becomes payload. -/
theorem grammar_decodes_leaks :
    encodeAll [.subnegotiation [IAC, SE, 65]] =
        [IAC, SB, IAC, IAC, SE, 65, IAC, SE] ∧
      (opened [⟨[IAC, SB, IAC, IAC, SE, 65, IAC, SE], by decide⟩] .closed
        []).fill.buf = [65] ∧
      ¬ Decodes [.subnegotiation [IAC, SE, 65]]
        (opened [⟨[IAC, SB, IAC, IAC, SE, 65, IAC, SE], by decide⟩] .closed
          []).fill := by
  refine ⟨by decide, by decide, fun decodes => ?_⟩
  exact absurd decodes.payload (by decide)

end RiscosBuilder.Agent.Telnet
