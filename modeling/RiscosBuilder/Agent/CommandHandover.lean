import RiscosBuilder.Agent.LineHandover

/-!
# A command line and its binary payload

The host sends a command line ended by CR LF and then a binary payload with
every `IAC` doubled.  The line always comes out right; the payload does exactly
when no chunk ends between CR and LF and, for a payload that begins with LF or
NUL, a chunk does end right in front of it.
-/

namespace RiscosBuilder.Agent.Telnet

/-! ## Decoding what a telnet sender escapes -/

theorem scan_data {ch : UInt8} (plain : ch ≠ IAC) (rest : List UInt8) :
    scan (ch :: rest) =
      ⟨ch :: (scan rest).out, (scan rest).reply, (scan rest).raw⟩ :=
  scan_of_scanNext (scanNext_data plain rest)

/-- Bytes other than `IAC` are payload as they stand. -/
theorem scan_plain_append {plain : List UInt8} (clean : IAC ∉ plain)
    (rest : List UInt8) :
    scan (plain ++ rest) =
      ⟨plain ++ (scan rest).out, (scan rest).reply, (scan rest).raw⟩ := by
  induction plain with
  | nil => rfl
  | cons ch plain ih =>
      have hch : ch ≠ IAC := fun same => clean (same ▸ List.mem_cons_self)
      have htail := ih fun member => clean (List.mem_cons_of_mem ch member)
      rw [List.cons_append, scan_data hch, htail]
      rfl

/-- Decoding undoes `escape`. -/
theorem scan_escape_append (data rest : List UInt8) :
    scan (escape data ++ rest) =
      ⟨data ++ (scan rest).out, (scan rest).reply, (scan rest).raw⟩ := by
  induction data with
  | nil => rfl
  | cons ch data ih =>
      by_cases plain : ch = IAC
      · have hcons : escape (ch :: data) = IAC :: IAC :: escape data := by
          simp [escape, plain]
        rw [hcons, List.cons_append, List.cons_append,
          scan_of_scanNext (scanNext_escaped _), ih, plain]
        rfl
      · have hcons : escape (ch :: data) = ch :: escape data := by
          simp [escape, plain]
        rw [hcons, List.cons_append, scan_data plain, ih]
        rfl

theorem scan_escape (data : List UInt8) : scan (escape data) = ⟨data, [], []⟩ := by
  simpa using scan_escape_append data []

/-! ## Cuts of the wire and cuts of the payload -/

/-- A chunk ends exactly `size` bytes into the stream. -/
def Cut (chunks : List Chunk) (size : Nat) : Prop :=
  ∃ count, (wire (chunks.take count)).length = size

theorem wire_take_drop (chunks : List Chunk) (count : Nat) :
    wire (chunks.take count) ++ wire (chunks.drop count) = wire chunks := by
  rw [← wire_append, List.take_append_drop]

theorem opened_iterate_buf (chunks : List Chunk) (ending : Ending)
    (sends : List Bool) {count : Nat} (available : count ≤ chunks.length) :
    (fill^[count] (opened chunks ending sends)).buf =
      (scan (wire (chunks.take count))).out := by
  simpa [opened, connect] using
    (filled_iterate (opened chunks ending sends) available).buf

/-- The decoded length at a cut of the wire inside or behind `plain`. -/
theorem scan_out_length_front {plain payload front later : List UInt8}
    (clean : IAC ∉ plain) (split : front ++ later = plain ++ escape payload) :
    (front.length ≤ plain.length ∧ (scan front).out.length = front.length) ∨
    (plain.length < front.length ∧
      (plain.length < (scan front).out.length ∨
        (scan front).out.length = plain.length ∧
          payload.head? = some IAC)) := by
  rcases List.append_eq_append_iff.mp split with
    ⟨others, hplain, -⟩ | ⟨others, hfront, hothers⟩
  · have hclean : IAC ∉ front := fun member =>
      clean (hplain ▸ List.mem_append_left _ member)
    refine Or.inl ⟨by simp [hplain], ?_⟩
    simpa using congrArg (fun s => s.out.length) (scan_plain_append hclean [])
  · have hout : (scan front).out = plain ++ (scan others).out := by
      rw [hfront, scan_plain_append clean]
    cases others with
    | nil =>
        rw [List.append_nil] at hfront
        have hscan := scan_plain_append clean []
        rw [List.append_nil] at hscan
        exact Or.inl (by simp [hfront, hscan])
    | cons ch others =>
        refine Or.inr ⟨by simp [hfront], ?_⟩
        cases payload with
        | nil => simp [escape] at hothers
        | cons first payload =>
            by_cases same : first = IAC
            · by_cases empty : (scan (ch :: others)).out = []
              · exact Or.inr ⟨by simp [hout, empty], by simp [same]⟩
              · left
                rw [hout, List.length_append]
                have hpos := List.length_pos_of_ne_nil empty
                omega
            · have hch : ch = first := by
                simp only [escape, List.flatMap_cons, if_neg same,
                  List.cons_append, List.cons.injEq] at hothers
                exact hothers.1.symm
              left
              rw [hout, scan_data (hch ▸ same)]
              simp

/-- What decodes to nothing comes in front of the payload and its cuts. -/
theorem scan_out_greeted {greeting rest front later : List UInt8}
    (silent : (scan greeting).out = []) (whole : (scan greeting).raw = [])
    (split : front ++ later = greeting ++ rest) :
    (front.length ≤ greeting.length ∧ (scan front).out = []) ∨
    ∃ others, front = greeting ++ others ∧ others ++ later = rest ∧
      (scan front).out = (scan others).out := by
  rcases List.append_eq_append_iff.mp split with
    ⟨others, hgreeting, -⟩ | ⟨others, hfront, hrest⟩
  · have hscan := scan_append front others
    rw [← hgreeting] at hscan
    rw [hscan] at silent
    exact Or.inl ⟨by simp [hgreeting], (List.append_eq_nil_iff.mp silent).1⟩
  · have hscan := scan_append greeting others
    rw [← hfront, whole, silent] at hscan
    exact Or.inr ⟨others, hfront, hrest.symm, by simp [hscan]⟩

section Cuts

variable {greeting plain payload : List UInt8} {chunks : List Chunk} {size : Nat}

theorem cutAt_of_cut (silent : (scan greeting).out = [])
    (whole : (scan greeting).raw = []) (clean : IAC ∉ plain)
    (sent : wire chunks = greeting ++ (plain ++ escape payload))
    (ending : Ending) (sends : List Bool) (positive : 0 < size)
    (within : size ≤ plain.length) (cut : Cut chunks (greeting.length + size)) :
    CutAt (opened chunks ending sends) size := by
  obtain ⟨count, hsize⟩ := cut
  refine ⟨min count chunks.length, Nat.min_le_right _ _, ?_⟩
  rw [opened_iterate_buf _ _ _ (Nat.min_le_right _ _),
    show chunks.take (min count chunks.length) = chunks.take count by
      rw [← List.take_take, List.take_length]]
  rcases scan_out_greeted silent whole ((wire_take_drop chunks count).trans sent)
    with ⟨hshort, -⟩ | ⟨others, hfront, hsplit, hsame⟩
  · omega
  · have hothers : others.length = size := by
      rw [hfront, List.length_append] at hsize
      omega
    rw [hsame]
    rcases scan_out_length_front clean hsplit with ⟨-, hout⟩ | ⟨hlong, -⟩
    · exact hout.trans hothers
    · omega

theorem cut_of_cutAt (silent : (scan greeting).out = [])
    (whole : (scan greeting).raw = []) (clean : IAC ∉ plain)
    (sent : wire chunks = greeting ++ (plain ++ escape payload))
    (ending : Ending) (sends : List Bool) (positive : 0 < size)
    (within : size ≤ plain.length)
    (cut : CutAt (opened chunks ending sends) size) :
    Cut chunks (greeting.length + size) ∨
      (size = plain.length ∧ payload.head? = some IAC) := by
  obtain ⟨count, available, hsize⟩ := cut
  rw [opened_iterate_buf chunks ending sends available] at hsize
  rcases scan_out_greeted silent whole ((wire_take_drop chunks count).trans sent)
    with ⟨-, hnone⟩ | ⟨others, hfront, hsplit, hsame⟩
  · rw [hnone, List.length_nil] at hsize
    omega
  · rw [hsame] at hsize
    rcases scan_out_length_front clean hsplit with ⟨-, hout⟩ | ⟨-, hout | ⟨hout, hhead⟩⟩
    · refine Or.inl ⟨count, ?_⟩
      rw [hfront, List.length_append, ← hout, hsize]
    · omega
    · exact Or.inr ⟨hsize.symm.trans hout, hhead⟩

end Cuts

/-! ## The handover -/

/--
`read_line` returns `line`, and reads of whatever sizes behind it return
`payload`, each the next bytes of it, until it is used up.
-/
def HandsOver (chan : Telnet) (line payload : List UInt8) : Prop :=
  chan.readLine.1 = some line ∧
    ∀ wants : List Nat,
      (reads wants chan.readLine.2).1.flatten = payload.take wants.sum

theorem handsOver_iff {chan : Telnet} {line payload : List UInt8} :
    HandsOver chan line payload ↔
      chan.readLine.1 = some line ∧ chan.readLine.2.payload = payload := by
  refine and_congr_right fun _ => ⟨fun all => ?_, fun same wants => ?_⟩
  · have hreads : ∀ size, chan.readLine.2.payload.take size =
        payload.take size := fun size => by
      have hread := all [size]
      rw [(reads_payload [size] _).1] at hread
      simpa using hread
    have hlong := hreads (chan.readLine.2.payload.length + payload.length)
    rwa [List.take_of_length_le (Nat.le_add_right _ _),
      List.take_of_length_le (Nat.le_add_left _ _)] at hlong
  · rw [(reads_payload wants _).1, same]

theorem dropTerminator_eq_self_iff (follow : List UInt8) :
    dropTerminator follow = follow ↔
      follow.head? ≠ some LF ∧ follow.head? ≠ some NUL := by
  unfold dropTerminator
  rw [← not_or]
  split
  · next dropped =>
      cases follow with
      | nil => simp at dropped
      | cons first others =>
          constructor
          · intro same
            simpa using congrArg List.length same
          · exact fun kept => absurd dropped kept
  · next kept => simp [kept]

theorem afterLine_eq_iff (chan : Telnet) (size : Nat) (follow : List UInt8) :
    afterLine chan size follow = follow ↔
      ¬ CutAt chan (size + 1) ∧ (CutAt chan (size + 2) ∨
        (follow.head? ≠ some LF ∧ follow.head? ≠ some NUL)) := by
  unfold afterLine
  by_cases first : CutAt chan (size + 1)
  · simp [first]
  · by_cases second : CutAt chan (size + 2)
    · simp [first, second]
    · simp only [first, second, if_false, not_false_eq_true, true_and,
        false_or]
      exact dropTerminator_eq_self_iff follow

section Greeted

variable {greeting line payload : List UInt8} {chunks : List Chunk}

theorem iac_not_mem_terminated (clean : IAC ∉ line) : IAC ∉ line ++ [CR, LF] := by
  simp only [List.mem_append, List.mem_cons, List.not_mem_nil, or_false]
  rintro (member | same | same)
  · exact clean member
  · exact absurd same (by decide)
  · exact absurd same (by decide)

/-- The negotiations in front decode to nothing. -/
theorem opened_greeted (silent : (scan greeting).out = [])
    (settled : (scan greeting).raw = []) (clean : IAC ∉ line)
    (sent : wire chunks = greeting ++ ((line ++ [CR, LF]) ++ escape payload))
    (ending : Ending) (sends : List Bool) :
    (scan (opened chunks ending sends).remaining).out =
        line ++ CR :: LF :: payload ∧
      (opened chunks ending sends).payload = line ++ CR :: LF :: payload := by
  have hplain := scan_plain_append (iac_not_mem_terminated clean) (escape payload)
  rw [scan_escape] at hplain
  have hremaining : (opened chunks ending sends).remaining =
      greeting ++ ((line ++ [CR, LF]) ++ escape payload) := sent
  have hout : (scan (opened chunks ending sends).remaining).out =
      line ++ CR :: LF :: payload := by
    rw [hremaining, scan_append, settled, List.nil_append, hplain]
    simp [silent]
  have hraw : (scan (opened chunks ending sends).remaining).raw = [] := by
    rw [hremaining, scan_append, settled, List.nil_append, hplain]
  refine ⟨hout, ?_⟩
  unfold Telnet.payload upcoming flushed
  rw [hout, hraw]
  cases ending <;> simp [opened, connect]

/--
Negotiations in front of a command line only move the cuts along: `read_line`
returns the line, and leaves the payload intact exactly when no chunk ends
between the CR and the LF of the line, and the payload does not begin with LF or
NUL unless a chunk ends right behind the LF.
-/
theorem readLine_greeted (silent : (scan greeting).out = [])
    (settled : (scan greeting).raw = []) (whole : Unterminated line)
    (clean : IAC ∉ line)
    (sent : wire chunks = greeting ++ ((line ++ [CR, LF]) ++ escape payload))
    (ending : Ending) (sends : List Bool) :
    (opened chunks ending sends).readLine.1 = some line ∧
      ((opened chunks ending sends).readLine.2.payload = payload ↔
        ¬ Cut chunks (greeting.length + (line.length + 1)) ∧
          (Cut chunks (greeting.length + (line.length + 2)) ∨
            (payload.head? ≠ some LF ∧ payload.head? ≠ some NUL))) := by
  have hclean := iac_not_mem_terminated clean
  obtain ⟨hout, hpayload⟩ := opened_greeted silent settled clean sent ending sends
  obtain ⟨hline, -, hafter⟩ := readLine_terminated
    (show (opened chunks ending sends).eof = false from rfl) whole
    (by rw [hout]; simp [opened, connect]) hpayload
  have hfirst : CutAt (opened chunks ending sends) (line.length + 1) ↔
      Cut chunks (greeting.length + (line.length + 1)) := by
    constructor
    · intro cut
      rcases cut_of_cutAt silent settled hclean sent ending sends
        (Nat.succ_pos _) (by simp) cut with cut | ⟨hsize, -⟩
      · exact cut
      · simp at hsize
    · exact cutAt_of_cut silent settled hclean sent ending sends
        (Nat.succ_pos _) (by simp)
  have hsecond : (CutAt (opened chunks ending sends) (line.length + 2) ∨
        (payload.head? ≠ some LF ∧ payload.head? ≠ some NUL)) ↔
      (Cut chunks (greeting.length + (line.length + 2)) ∨
        (payload.head? ≠ some LF ∧ payload.head? ≠ some NUL)) := by
    constructor
    · rintro (cut | other)
      · rcases cut_of_cutAt silent settled hclean sent ending sends
          (Nat.succ_pos _) (by simp) cut with cut | ⟨-, hhead⟩
        · exact Or.inl cut
        · exact Or.inr (by rw [hhead]; decide)
      · exact Or.inr other
    · exact Or.imp_left (cutAt_of_cut silent settled hclean sent ending sends
        (Nat.succ_pos _) (by simp))
  rw [hline, hafter, afterLine_eq_iff, hfirst, hsecond]
  exact ⟨rfl, Iff.rfl⟩

end Greeted

/--
The payload behind a command line is handed over intact exactly when no chunk
ends between the CR and the LF of the line, and the payload does not begin with
LF or NUL unless a chunk ends right behind the LF.
-/
theorem command_handover {line payload : List UInt8} {chunks : List Chunk}
    (whole : Unterminated line) (clean : IAC ∉ line)
    (sent : wire chunks = line ++ CR :: LF :: escape payload)
    (ending : Ending) (sends : List Bool) :
    HandsOver (opened chunks ending sends) line payload ↔
      ¬ Cut chunks (line.length + 1) ∧
        (Cut chunks (line.length + 2) ∨
          (payload.head? ≠ some LF ∧ payload.head? ≠ some NUL)) := by
  have hsent : wire chunks = [] ++ ((line ++ [CR, LF]) ++ escape payload) := by
    simpa using sent
  obtain ⟨hline, hpayload⟩ := readLine_greeted rfl rfl whole clean hsent ending
    sends
  simp only [List.length_nil, Nat.zero_add] at hpayload
  rw [handsOver_iff, hpayload, and_iff_right hline]

/-- The whole of a line and a payload `A` in one chunk is handed over. -/
theorem command_handover_one_chunk :
    HandsOver (opened [⟨[108, 115, CR, LF, 65], by decide⟩] .closed [])
      [108, 115] [65] :=
  (@command_handover [108, 115] [65] [⟨[108, 115, CR, LF, 65], by decide⟩]
    ⟨by decide, by decide⟩ (by decide) rfl .closed []).mpr ⟨by
      rintro ⟨count, hsize⟩
      cases count <;> simp at hsize, Or.inr (by decide)⟩

/-- A NUL in front of the payload is dropped; a late LF is added to it. -/
theorem command_handover_shifts :
    ¬ HandsOver (opened [⟨[108, 115, CR, LF, NUL], by decide⟩] .closed [])
        [108, 115] [NUL] ∧
      ¬ HandsOver (opened [⟨[108, 115, CR], by decide⟩, ⟨[LF, 65], by decide⟩]
        .closed []) [108, 115] [65] := by
  constructor
  · rintro ⟨-, all⟩
    exact absurd (all [1]) (by decide)
  · rintro ⟨-, all⟩
    exact absurd (all [2]) (by decide)

end RiscosBuilder.Agent.Telnet
