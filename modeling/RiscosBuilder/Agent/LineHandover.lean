import RiscosBuilder.Agent.InboundChunking

/-!
# From a command line to the bytes behind it

`read_line` looks for LF before CR and drops one LF or NUL behind the separator
it found, if that byte has been decoded already.  For a line ended by CR LF it
follows that the line itself is always right, and that the payload behind it
depends on where the chunks were cut: between CR and LF the LF is left behind
as payload, and otherwise a first payload byte LF or NUL is dropped unless the
cut fell exactly in front of it.
-/

namespace RiscosBuilder.Agent.Telnet

/-! ## Finding the end of a line -/

/-- A line as it is before its terminator. -/
def Unterminated (line : List UInt8) : Prop :=
  CR ∉ line ∧ LF ∉ line

theorem find_append {front : List UInt8} {sep : UInt8} (absent : sep ∉ front)
    (buf : List UInt8) :
    find (front ++ buf) sep = (find buf sep).map (· + front.length) := by
  have hnone : front.findIdx? (· == sep) = none := by
    rw [List.findIdx?_eq_none_iff]
    intro byte member
    simpa using fun same : byte = sep => absent (same ▸ member)
  simp [find, List.findIdx?_append, hnone]

theorem rstripCR_self {line : List UInt8} (absent : CR ∉ line) :
    rstripCR line = line := by
  rw [rstripCR, List.rdropWhile_eq_self_iff]
  intro nonempty
  simpa using fun same : line.getLast nonempty = CR =>
    absent (same ▸ List.getLast_mem nonempty)

theorem rstripCR_append (line : List UInt8) :
    rstripCR (line ++ [CR]) = rstripCR line :=
  List.rdropWhile_concat_pos _ _ _ (by decide)

theorem dropTerminator_suffix (rest : List UInt8) :
    dropTerminator rest <:+ rest := by
  unfold dropTerminator
  split
  · exact List.drop_suffix _ _
  · exact List.suffix_rfl

theorem splitLine_unterminated {line : List UInt8} (whole : Unterminated line) :
    splitLine line = none := by
  have hlf := find_append whole.2 []
  have hcr := find_append whole.1 []
  rw [List.append_nil, show find [] LF = none from rfl] at hlf
  rw [List.append_nil, show find [] CR = none from rfl] at hcr
  simp [splitLine, hlf, hcr]

theorem splitLine_cr {line : List UInt8} (whole : Unterminated line) :
    splitLine (line ++ [CR]) = some (line, []) := by
  have hlf : find (line ++ [CR]) LF = none := by
    rw [find_append whole.2]
    rfl
  have hcr : find (line ++ [CR]) CR = some line.length := by
    rw [find_append whole.1]
    simp [find]
  simp [splitLine, hlf, hcr, rstripCR_self whole.1, dropTerminator]

theorem splitLine_crlf {line : List UInt8} (whole : Unterminated line)
    (rest : List UInt8) :
    splitLine (line ++ CR :: LF :: rest) = some (line, dropTerminator rest) := by
  have hlf : find (line ++ CR :: LF :: rest) LF = some (line.length + 1) := by
    rw [find_append whole.2]
    simp [find, show ¬ CR = LF by decide, List.findIdx?_cons, Nat.add_comm]
  have hsplit : line ++ CR :: LF :: rest = (line ++ [CR]) ++ LF :: rest := by
    simp
  have htake : (line ++ CR :: LF :: rest).take (line.length + 1) =
      line ++ [CR] := by
    rw [hsplit]
    exact List.take_left' (by simp)
  have hdrop : (line ++ CR :: LF :: rest).drop (line.length + 1 + 1) =
      rest := by
    rw [← List.drop_drop, hsplit, List.drop_left' (by simp)]
    rfl
  simp only [splitLine, hlf, Option.some_or, htake, hdrop, rstripCR_append,
    rstripCR_self whole.1]

/-! ## Where the arrivals are cut -/

/-- At some arrival, exactly `size` bytes of payload have been decoded. -/
def CutAt (chan : Telnet) (size : Nat) : Prop :=
  ∃ count ≤ chan.sock.arrivals.length,
    (fill^[count] chan).buf.length = size

instance (chan : Telnet) (size : Nat) : Decidable (CutAt chan size) :=
  Nat.decidableExistsLE _

/-- The payload `read_line` leaves behind a line of `size` bytes and CR LF. -/
def afterLine (chan : Telnet) (size : Nat) (follow : List UInt8) : List UInt8 :=
  if CutAt chan (size + 1) then LF :: follow
  else if CutAt chan (size + 2) then follow
  else dropTerminator follow

theorem iterate_buf_upcoming {chan : Telnet} (running : chan.eof = false)
    {count : Nat} (available : count ≤ chan.sock.arrivals.length) :
    (fill^[count] chan).buf ++ (fill^[count] chan).upcoming = chan.payload :=
  (filled_iterate chan available).payload running

theorem iterate_buf_length_le {chan : Telnet} {early late : Nat}
    (order : early ≤ late) (available : late ≤ chan.sock.arrivals.length) :
    (fill^[early] chan).buf.length ≤ (fill^[late] chan).buf.length := by
  have filled := filled_iterate chan (order.trans available)
  have hleft : late - early ≤ (fill^[early] chan).sock.arrivals.length := by
    have harrivals := congrArg List.length filled.arrivals
    rw [List.length_append, List.length_take] at harrivals
    omega
  have hbuf := (filled_iterate (fill^[early] chan) hleft).buf
  rw [← Function.iterate_add_apply, Nat.sub_add_cancel order] at hbuf
  rw [hbuf, List.length_append]
  exact Nat.le_add_right _ _

/-- A buffered front of the payload ends in the line, or in its terminator. -/
theorem splitLine_front {line follow front later : List UInt8}
    (whole : Unterminated line)
    (split : front ++ later = line ++ CR :: LF :: follow) :
    (front.length ≤ line.length ∧ splitLine front = none) ∨
    (front.length = line.length + 1 ∧ splitLine front = some (line, []) ∧
      later = LF :: follow) ∨
    ∃ rest, front.length = line.length + 2 + rest.length ∧
      splitLine front = some (line, dropTerminator rest) ∧
      rest ++ later = follow := by
  rcases List.append_eq_append_iff.mp split with
    ⟨others, hline, -⟩ | ⟨others, hfront, hothers⟩
  · refine Or.inl ⟨by simp [hline], splitLine_unterminated ?_⟩
    rw [hline] at whole
    exact ⟨fun cr => whole.1 (List.mem_append_left _ cr),
      fun lf => whole.2 (List.mem_append_left _ lf)⟩
  · subst hfront
    match others with
    | [] =>
        refine Or.inl ⟨by simp, ?_⟩
        simpa using splitLine_unterminated whole
    | [first] =>
        obtain ⟨rfl, rfl⟩ := List.cons.inj hothers
        exact Or.inr (Or.inl ⟨by simp, splitLine_cr whole, rfl⟩)
    | first :: second :: rest =>
        obtain ⟨rfl, htail⟩ := List.cons.inj hothers
        obtain ⟨rfl, rfl⟩ := List.cons.inj htail
        refine Or.inr (Or.inr ⟨rest, ?_, splitLine_crlf whole rest, rfl⟩)
        simp only [List.length_append, List.length_cons]
        omega

/--
The loop of `read_line` stops at the first arrival with which the line's
terminator is there: all earlier arrivals end inside the line.
-/
theorem readLine_stops {chan : Telnet} (running : chan.eof = false)
    {line follow : List UInt8} (whole : Unterminated line)
    (arrives : line.length + 2 ≤
      (chan.buf ++ (scan chan.remaining).out).length)
    (split : chan.payload = line ++ CR :: LF :: follow) :
    ∃ count ≤ chan.sock.arrivals.length,
      fillWhile (fun buf => (splitLine buf).isNone) chan.fillBound chan =
        fill^[count] chan ∧
      (fill^[count] chan).eof = false ∧
      (splitLine (fill^[count] chan).buf).isNone = false ∧
      ∀ earlier < count, (fill^[earlier] chan).buf.length ≤ line.length := by
  have fronts : ∀ count ≤ chan.sock.arrivals.length, _ := fun count available =>
    splitLine_front whole ((iterate_buf_upcoming running available).trans split)
  rcases fillWhile_outcome (fun buf => (splitLine buf).isNone) running with
    ⟨count, havailable, heq, hopen, hfound, hbefore⟩ | ⟨-, hnone⟩
  · refine ⟨count, havailable, heq, hopen, hfound, fun earlier horder => ?_⟩
    have hnone := hbefore earlier horder
    rcases fronts earlier (by omega) with
      ⟨hshort, -⟩ | ⟨-, hsome, -⟩ | ⟨rest, -, hsome, -⟩
    · exact hshort
    · simp [hsome] at hnone
    · simp [hsome] at hnone
  · -- Once every chunk is in, the terminator is.
    have hall : (fill^[chan.sock.arrivals.length] chan).buf =
        chan.buf ++ (scan chan.remaining).out := by
      simpa [remaining] using
        (filled_iterate chan (le_refl chan.sock.arrivals.length)).buf
    rcases fronts chan.sock.arrivals.length le_rfl with
      ⟨hshort, -⟩ | ⟨-, hsome, -⟩ | ⟨rest, -, hsome, -⟩
    · rw [hall] at hshort
      omega
    · rw [← hall, hsome] at hnone
      cases hnone
    · rw [← hall, hsome] at hnone
      cases hnone

/--
What `read_line` does with a line ended by CR LF: it returns the line, and the
payload it leaves behind is that of `afterLine`.
-/
theorem readLine_terminated {chan : Telnet} (running : chan.eof = false)
    {line follow : List UInt8} (whole : Unterminated line)
    (arrives : line.length + 2 ≤
      (chan.buf ++ (scan chan.remaining).out).length)
    (split : chan.payload = line ++ CR :: LF :: follow) :
    chan.readLine.1 = some line ∧ chan.readLine.2.eof = false ∧
      chan.readLine.2.payload = afterLine chan line.length follow := by
  obtain ⟨count, havailable, heq, hopen, hfound, hearlier⟩ :=
    readLine_stops running whole arrives split
  have hcut : ∀ size, line.length < size →
      size < (fill^[count] chan).buf.length → ¬ CutAt chan size := by
    rintro size hlow hhigh ⟨other, hother, rfl⟩
    by_cases horder : other < count
    · have hle := hearlier other horder
      omega
    · have hle := iterate_buf_length_le (Nat.not_lt.mp horder) hother
      omega
  unfold readLine
  rw [heq]
  rcases splitLine_front whole
      ((iterate_buf_upcoming running havailable).trans split) with
    ⟨-, hnone⟩ | ⟨hlength, hsome, hlater⟩ | ⟨rest, hlength, hsome, hlater⟩
  · simp [hnone] at hfound
  · have hat : CutAt chan (line.length + 1) := ⟨count, havailable, hlength⟩
    simp only [hsome]
    refine ⟨trivial, hopen, ?_⟩
    rw [payload_with_buf, hlater, afterLine, if_pos hat, List.nil_append]
  · have hnot : ¬ CutAt chan (line.length + 1) :=
      hcut _ (by omega) (by omega)
    simp only [hsome]
    refine ⟨trivial, hopen, ?_⟩
    rw [payload_with_buf, afterLine, if_neg hnot]
    cases rest with
    | nil =>
        have hat : CutAt chan (line.length + 2) :=
          ⟨count, havailable, by simpa using hlength⟩
        simpa [if_pos hat, dropTerminator] using hlater
    | cons first others =>
        have hnot' : ¬ CutAt chan (line.length + 2) := by
          refine hcut _ (by omega) ?_
          rw [hlength, List.length_cons]
          omega
        rw [if_neg hnot', ← hlater]
        unfold dropTerminator
        simp only [List.cons_append, List.head?_cons, List.drop_succ_cons,
          List.drop_zero]
        split <;> rfl

end RiscosBuilder.Agent.Telnet
