import RiscosBuilder.Agent.PushFailure

/-!
# The lines of the transfers

Which directories `parse_tar_command` finds in the one-liners of a push and of a
pull.  It takes a line apart at every `&&`, quoted or not.
-/

namespace RiscosBuilder.Agent

open RiscosBuilder.Library RiscosBuilder.Library.ByteString

/-- `cd 'D' && tar -cf - .`. -/
def pullLine (name : List UInt8) : List UInt8 :=
  ascii "cd '" ++ name ++ ascii "' && tar -cf - ."

/-- The text has an `&&` in it. -/
def HasAnd (text : List UInt8) : Prop :=
  [0x26, 0x26] <:+: text

instance (text : List UInt8) : Decidable (HasAnd text) :=
  inferInstanceAs (Decidable (_ <:+: _))

/-! ## A directory is cut out of one part -/

theorem strip_isInfix (text : List UInt8) : strip text <:+: text :=
  (List.rdropWhile_prefix _ _).isInfix.trans (List.dropWhile_suffix _).isInfix

theorem unquote_isInfix (word : List UInt8) : unquote word <:+: word := by
  unfold unquote
  split
  · exact (List.dropLast_prefix _).isInfix.trans (List.drop_suffix _ _).isInfix
  · exact List.infix_rfl

/-- The directory is the one given, or it is cut out of a part. -/
theorem parseParts_directory {parts : List (List UInt8)}
    {directory found : Option (List UInt8)} {action chosen : Option Action}
    (parsed : parseParts parts directory action = some (found, chosen)) :
    found = directory ∨ ∃ part ∈ parts, ∃ name, found = some name ∧
      name <:+: part := by
  induction parts generalizing directory action with
  | nil =>
      rw [parseParts, Option.some.injEq, Prod.mk.injEq] at parsed
      exact Or.inl parsed.1.symm
  | cons part parts ih =>
      have hlater : ∀ {given : Option (List UInt8)} {act : Option Action},
          parseParts parts given act = some (found, chosen) →
            found = given ∨ ∃ p ∈ part :: parts, ∃ name, found = some name ∧
              name <:+: p := by
        intro given act later
        rcases ih later with same | ⟨p, member, cut⟩
        · exact Or.inl same
        · exact Or.inr ⟨p, List.mem_cons_of_mem _ member, cut⟩
      unfold parseParts at parsed
      split_ifs at parsed
      · exact hlater parsed
      · rcases hlater parsed with rfl | cut
        · refine Or.inr ⟨part, List.mem_cons_self, _, rfl, ?_⟩
          exact (unquote_isInfix _).trans
            ((strip_isInfix _).trans (List.drop_suffix _ _).isInfix)
        · exact Or.inr cut
      · split at parsed
        · cases parsed
        · split_ifs at parsed
          · exact hlater parsed
          · exact hlater parsed

/-- No line names a directory with an `&&` in it. -/
theorem parseTarCommand_free {line directory : List UInt8} {action : Action}
    (parsed : parseTarCommand line = some (action, directory)) :
    ¬ HasAnd directory := by
  have hparts : ∃ chosen, parseParts
      ((splitOnPair 0x26 0x26 line).map strip) none none =
        some (some directory, chosen) := by
    unfold parseTarCommand at parsed
    split at parsed
    · next found chosen hparts =>
        rw [Option.some.injEq, Prod.mk.injEq] at parsed
        exact ⟨_, parsed.2 ▸ hparts⟩
    · cases parsed
  obtain ⟨chosen, hparts⟩ := hparts
  rcases parseParts_directory hparts with hnone | ⟨part, member, name, same, cut⟩
  · cases hnone
  · obtain rfl := Option.some.inj same
    obtain ⟨raw, hraw, rfl⟩ := List.mem_map.mp member
    obtain ⟨first, others, hsplit, -, hfree⟩ := @splitOnPair_parts 0x26 0x26 line
    exact fun has => hfree raw (hsplit ▸ hraw)
      (has.trans (cut.trans (strip_isInfix raw)))

/-! ## The parts of the two lines -/

section Parts

variable {name : List UInt8}

/-- A quoted name and the blank behind it end a part, where they hold no `&&`. -/
theorem splitOnPair_quoted (plain : ¬ HasAnd name) {front : List UInt8}
    (hfront : 0x26 ∉ front) (back : List UInt8) :
    splitOnPair 0x26 0x26 (front ++ name ++ ascii "' " ++ 0x26 :: 0x26 :: back) =
      (front ++ name ++ ascii "' ") :: splitOnPair 0x26 0x26 back := by
  have hfree : ¬ [0x26, 0x26] <:+: front ++ name ++ ascii "' " :=
    not_infix_append_right (by decide) (not_infix_append_left hfront plain)
  have hlast : (front ++ name ++ ascii "' ").getLast? ≠ some 0x26 := by
    rw [show ascii "' " = [0x27] ++ [0x20] from rfl, ← List.append_assoc,
      List.getLast?_concat]
    decide
  rw [splitOnPair_append back hlast, splitOnPair_of_free hfree]
  rfl

theorem strip_quoted {blank front : List UInt8}
    (hblank : ∀ byte ∈ blank, isSpace byte) {first : UInt8}
    (head : front.head? = some first) (hfirst : isSpace first = false)
    (name : List UInt8) :
    strip (blank ++ front ++ name ++ ascii "' ") = front ++ name ++ [0x27] := by
  obtain ⟨tail, rfl⟩ := List.head?_eq_some_iff.mp head
  have hpadded := @strip_padded blank [0x20] (first :: tail ++ name ++ [0x27])
    hblank (List.forall_mem_singleton.mpr rfl) first 0x27 rfl
    List.getLast?_concat hfirst (by decide)
  rw [← hpadded]
  simp only [List.append_assoc]
  rfl

theorem unquote_quoted (name : List UInt8) :
    unquote ([0x27] ++ name ++ [0x27]) = name := by
  have hlength : 2 ≤ ([0x27] ++ name ++ [0x27]).length := by simp
  rw [unquote, if_pos ⟨hlength, rfl, List.getLast?_concat⟩]
  exact List.dropLast_concat

/-- The part with the `cd` gives the directory. -/
theorem parseParts_cd (name : List UInt8) (parts : List (List UInt8))
    (directory : Option (List UInt8)) (action : Option Action) :
    parseParts ((ascii "cd '" ++ name ++ [0x27]) :: parts) directory action =
      parseParts parts (some name) action := by
  have hquoted : strip ([0x27] ++ name ++ [0x27]) = [0x27] ++ name ++ [0x27] := by
    have hpadded := @strip_padded [] [] ([0x27] ++ name ++ [0x27]) (by simp)
      (by simp) 0x27 0x27 rfl List.getLast?_concat (by decide) (by decide)
    rwa [List.nil_append, List.append_nil] at hpadded
  have hmkdir : (ascii "mkdir ").isPrefixOf (ascii "cd '" ++ name ++ [0x27]) =
      false := rfl
  have hcd : (ascii "cd ").isPrefixOf (ascii "cd '" ++ name ++ [0x27]) = true :=
    rfl
  have hdrop : (ascii "cd '" ++ name ++ [0x27]).drop 3 =
      [0x27] ++ name ++ [0x27] := rfl
  simp only [parseParts, hmkdir, hcd, hdrop, hquoted, unquote_quoted,
    Bool.false_eq_true, if_false, if_true]

/-- The part with the `mkdir` is passed over. -/
theorem parseParts_mkdir (name : List UInt8) (parts : List (List UInt8))
    (directory : Option (List UInt8)) (action : Option Action) :
    parseParts ((ascii "mkdir -p '" ++ name ++ [0x27]) :: parts) directory
      action = parseParts parts directory action := by
  have hmkdir : (ascii "mkdir ").isPrefixOf
      (ascii "mkdir -p '" ++ name ++ [0x27]) = true := rfl
  simp only [parseParts, hmkdir, if_true]

theorem parse_pushLine (plain : ¬ HasAnd name) :
    parseTarCommand (pushLine name) = some (.extract, name) := by
  have hline : pushLine name =
      ascii "mkdir -p '" ++ name ++ ascii "' " ++ 0x26 :: 0x26 ::
        ([0x20] ++ ascii "cd '" ++ name ++ ascii "' " ++ 0x26 :: 0x26 ::
          ascii " tar -xf -") := by
    simp only [pushLine, List.append_assoc]
    rfl
  have hmkdir := @strip_quoted [] (ascii "mkdir -p '") (by simp) _ rfl (by decide)
    name
  have hcd := @strip_quoted [0x20] (ascii "cd '")
    (List.forall_mem_singleton.mpr rfl) _ rfl (by decide) name
  have htar : (splitOnPair 0x26 0x26 (ascii " tar -xf -")).map strip =
      [ascii "tar -xf -"] := by decide
  rw [List.nil_append] at hmkdir
  rw [parseTarCommand, hline, splitOnPair_quoted plain (by decide),
    splitOnPair_quoted plain (by decide), List.map_cons, List.map_cons, hmkdir,
    hcd, htar, parseParts_mkdir, parseParts_cd]
  rfl

theorem parse_pullLine (plain : ¬ HasAnd name) :
    parseTarCommand (pullLine name) = some (.create, name) := by
  have hline : pullLine name =
      ascii "cd '" ++ name ++ ascii "' " ++ 0x26 :: 0x26 ::
        ascii " tar -cf - ." := by
    simp only [pullLine, List.append_assoc]
    rfl
  have hcd := @strip_quoted [] (ascii "cd '") (by simp) _ rfl (by decide) name
  have htar : (splitOnPair 0x26 0x26 (ascii " tar -cf - .")).map strip =
      [ascii "tar -cf - ."] := by decide
  rw [List.nil_append] at hcd
  rw [parseTarCommand, hline, splitOnPair_quoted plain (by decide), List.map_cons,
    hcd, htar, parseParts_cd]
  rfl

end Parts

/--
Whatever the directory is called, the line of a push is taken for a push into
it, and that of a pull for a pull out of it, just if there is no `&&` in its
name.
-/
theorem transfer_recognised_iff (name : List UInt8) :
    (parseTarCommand (pushLine name) = some (.extract, name) ↔ ¬ HasAnd name) ∧
      (parseTarCommand (pullLine name) = some (.create, name) ↔
        ¬ HasAnd name) :=
  ⟨⟨parseTarCommand_free, parse_pushLine⟩, parseTarCommand_free, parse_pullLine⟩

/-- The directory `a && b`: neither line is taken for a transfer. -/
theorem transfer_recognised_not_and :
    parseTarCommand (pushLine (ascii "a && b")) = none ∧
      parseTarCommand (pullLine (ascii "a && b")) = none ∧
      ¬ ∀ name : List UInt8, 0x27 ∉ name → CR ∉ name → LF ∉ name →
        parseTarCommand (pushLine name) = some (.extract, name) ∧
          parseTarCommand (pullLine name) = some (.create, name) := by
  have hpush : parseTarCommand (pushLine (ascii "a && b")) = none := by decide
  refine ⟨hpush, by decide, fun recognises => ?_⟩
  have found := (recognises (ascii "a && b") (by decide) (by decide)
    (by decide)).1
  rw [hpush] at found
  cases found

end RiscosBuilder.Agent
