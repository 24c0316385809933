import RiscosBuilder.Agent.PlainChannel
import RiscosBuilder.Agent.Serve

/-!
# Lines as they are typed

A line on the wire ends in CR LF or in CR NUL.  `read_line` looks for LF before
CR in all that is buffered, and drops one byte behind what it finds.
-/

namespace RiscosBuilder.Agent

open RiscosBuilder.Library RiscosBuilder.Library.ByteString
open RiscosBuilder.Library.Packets

/-! ## Typed lines -/

/-- How telnet ends a line: CR LF, or a bare CR sent as CR NUL. -/
inductive LineEnd where
  | crlf
  | crnul
  deriving DecidableEq, Repr

/-- The byte behind the CR. -/
def LineEnd.second : LineEnd → UInt8
  | .crlf => LF
  | .crnul => NUL

/-- A line that is no transfer, without white space around it. -/
structure CommandLine where
  text : List UInt8
  nonblank : text ≠ []
  trimmed : strip text = text
  whole : Telnet.Unterminated text
  noNul : NUL ∉ text
  noIac : IAC ∉ text
  command : parseTarCommand text = none

/-- The bytes of some lines with their ends. -/
def typed (lines : List (CommandLine × LineEnd)) : List UInt8 :=
  lines.flatMap fun line => line.1.text ++ [CR, line.2.second]

/-- The commands that are to be run. -/
def texts (lines : List (CommandLine × LineEnd)) : List (List UInt8) :=
  lines.map fun line => line.1.text

theorem typed_cons (line : CommandLine) (ending : LineEnd)
    (lines : List (CommandLine × LineEnd)) :
    typed ((line, ending) :: lines) =
      line.text ++ CR :: ending.second :: typed lines := by
  simp [typed]

theorem texts_cons (line : CommandLine) (ending : LineEnd)
    (lines : List (CommandLine × LineEnd)) :
    texts ((line, ending) :: lines) = line.text :: texts lines :=
  rfl

theorem iac_not_mem_typed (lines : List (CommandLine × LineEnd)) :
    IAC ∉ typed lines := by
  rw [typed, List.mem_flatMap]
  rintro ⟨⟨line, ending⟩, -, member⟩
  change IAC ∈ line.text ++ [CR, ending.second] at member
  rw [List.mem_append, List.mem_pair] at member
  rcases member with member | cr | second
  · exact line.noIac member
  · exact absurd cr (by decide)
  · cases ending <;> exact absurd second (by decide)

/--
For every line ended by CR NUL, the chunk that brings the CR brings the NUL as
well, and no LF behind it.
-/
def Kept : List (List UInt8) → List (CommandLine × LineEnd) → Prop
  | _, [] => True
  | packets, (line, ending) :: lines =>
      (ending = .crnul →
        behind packets (line.text.length + 1) ≠ [] ∧
          LF ∉ behind packets (line.text.length + 1)) ∧
        Kept (advance packets (line.text.length + 2)) lines

instance decidableKept : (packets : List (List UInt8)) →
    (lines : List (CommandLine × LineEnd)) → Decidable (Kept packets lines)
  | _, [] => isTrue trivial
  | packets, (line, ending) :: lines =>
      have := decidableKept (advance packets (line.text.length + 2)) lines
      inferInstanceAs (Decidable ((ending = .crnul → _) ∧ _))

/-- Neither CR, LF nor NUL. -/
def isText (byte : UInt8) : Bool :=
  byte ≠ CR && byte ≠ LF && byte ≠ NUL

theorem CommandLine.filter_text (line : CommandLine) :
    line.text.filter isText = line.text := by
  rw [List.filter_eq_self]
  intro byte member
  have hcr : byte ≠ CR := fun same => line.whole.1 (same ▸ member)
  have hlf : byte ≠ LF := fun same => line.whole.2 (same ▸ member)
  have hnul : byte ≠ NUL := fun same => line.noNul (same ▸ member)
  simp [isText, hcr, hlf, hnul]

/-- Among what is typed there is nothing but the lines and their ends. -/
theorem filter_typed (lines : List (CommandLine × LineEnd)) :
    (typed lines).filter isText = (texts lines).flatten := by
  induction lines with
  | nil => rfl
  | cons first lines ih =>
      obtain ⟨line, ending⟩ := first
      rw [typed_cons, texts_cons, List.filter_append, line.filter_text,
        List.filter_cons_of_neg (by decide),
        List.filter_cons_of_neg (by cases ending <;> decide), ih,
        List.flatten_cons]

theorem filter_texts (lines : List (CommandLine × LineEnd)) :
    (texts lines).flatten.filter isText = (texts lines).flatten := by
  rw [← filter_typed, List.filter_filter]
  simp only [Bool.and_self]

theorem filter_ending (ending : LineEnd) (lines : List (CommandLine × LineEnd)) :
    (CR :: ending.second :: typed lines).filter isText =
      (texts lines).flatten := by
  rw [List.filter_cons_of_neg (by decide),
    List.filter_cons_of_neg (by cases ending <;> decide), filter_typed]

/-- With the text of later lines only, there is not the text of a line before. -/
theorem not_sublist_later {line : CommandLine} {ending : LineEnd}
    {lines : List (CommandLine × LineEnd)} {whole : List UInt8}
    (later : whole.filter isText = (texts lines).flatten) :
    ¬ (texts ((line, ending) :: lines)).flatten.Sublist whole := by
  intro sublist
  have hlength := (sublist.filter isText).length_le
  rw [later, filter_texts, texts_cons, List.flatten_cons, List.length_append]
    at hlength
  have hpos := List.length_pos_of_ne_nil line.nonblank
  omega

theorem noNul_of_mem_texts {lines : List (CommandLine × LineEnd)}
    {text : List UInt8} (member : text ∈ texts lines) : NUL ∉ text := by
  rw [texts, List.mem_map] at member
  obtain ⟨line, -, rfl⟩ := member
  exact line.1.noNul

/-! ## What one turn reads -/

namespace Telnet

theorem splitLine_isSome {buf : List UInt8} (terminated : CR ∈ buf ∨ LF ∈ buf) :
    ∃ line rest, splitLine buf = some (line, rest) := by
  cases hsplit : splitLine buf with
  | some found => exact ⟨found.1, found.2, rfl⟩
  | none =>
      unfold splitLine at hsplit
      cases hpos : (find buf LF).or (find buf CR) with
      | some pos => simp [hpos] at hsplit
      | none =>
          simp only [Option.or_eq_none_iff, find, List.findIdx?_eq_none_iff,
            beq_eq_false_iff_ne] at hpos
          rcases terminated with cr | lf
          · exact absurd rfl (hpos.2 CR cr)
          · exact absurd rfl (hpos.1 LF lf)

/-- Where the first terminator is beyond `front`, the line holds all of it. -/
theorem splitLine_beyond {front buf line rest : List UInt8} (lf : LF ∉ front)
    (first : CR ∉ front ∨ LF ∈ buf)
    (split : splitLine (front ++ buf) = some (line, rest)) :
    (∃ middle, line = rstripCR (front ++ middle)) ∧ rest <:+ buf := by
  have hpos : ∃ pos, (find (front ++ buf) LF).or (find (front ++ buf) CR) =
      some (pos + front.length) := by
    rw [find_append lf]
    cases hlf : find buf LF with
    | some pos => exact ⟨pos, rfl⟩
    | none =>
        rcases first with cr | later
        · rw [find_append cr]
          cases hcr : find buf CR with
          | some pos => exact ⟨pos, rfl⟩
          | none =>
              unfold splitLine at split
              simp [find_append lf, find_append cr, hlf, hcr] at split
        · rw [find, List.findIdx?_eq_none_iff] at hlf
          have habsent := hlf LF later
          simp at habsent
  obtain ⟨pos, hpos⟩ := hpos
  unfold splitLine at split
  rw [hpos] at split
  obtain ⟨rfl, rfl⟩ := Prod.mk.inj (Option.some.inj split)
  constructor
  · refine ⟨buf.take pos, ?_⟩
    rw [Nat.add_comm, List.take_length_add_append]
  · refine (dropTerminator_suffix _).trans ?_
    rw [Nat.add_right_comm, Nat.add_comm, List.drop_length_add_append]
    exact List.drop_suffix _ _

theorem splitLine_cr_seen {text seen : List UInt8} (whole : Unterminated text)
    (seenLF : LF ∉ seen) :
    splitLine (text ++ CR :: seen) = some (text, dropTerminator seen) := by
  have hlf : find (text ++ CR :: seen) LF = none := by
    rw [find, List.findIdx?_eq_none_iff]
    intro byte member
    rw [List.mem_append, List.mem_cons] at member
    rcases member with inside | rfl | behind
    · simpa using fun same : byte = LF => whole.2 (same ▸ inside)
    · rfl
    · simpa using fun same : byte = LF => seenLF (same ▸ behind)
  have hcr : find (text ++ CR :: seen) CR = some text.length := by
    rw [find_append whole.1]
    simp [find, List.findIdx?_cons]
  have hdrop : (text ++ CR :: seen).drop (text.length + 1) = seen := by
    rw [← List.drop_drop, List.drop_left]
    rfl
  simp only [splitLine, hlf, hcr, Option.none_or, List.take_left, hdrop,
    rstripCR_self whole.1]

end Telnet

end RiscosBuilder.Agent
