import Mathlib.Data.List.DropRight
import Mathlib.Data.List.TakeWhile

/-!
# Byte strings

The operations that Python's byte strings offer on text, over `List UInt8`.
-/

namespace RiscosBuilder.Library

/-- The bytes of a text whose characters are all below 256. -/
def ascii (text : String) : List UInt8 :=
  text.toList.map fun char => UInt8.ofNat char.toNat

namespace ByteString

/-- White space as `str.strip` and `str.split` of Python 2 see it. -/
def isSpace (byte : UInt8) : Bool :=
  byte = 0x20 || (0x09 ≤ byte && byte ≤ 0x0d)

/-- `text.strip()`. -/
def strip (text : List UInt8) : List UInt8 :=
  (text.dropWhile isSpace).rdropWhile isSpace

/-- `text.split()`. -/
def words (text : List UInt8) : List (List UInt8) :=
  (text.splitOnP isSpace).filter (· ≠ [])

/-- `text.split(sep)` for a separator made of the bytes `first` and `second`. -/
def splitOnPair (first second : UInt8) : List UInt8 → List (List UInt8)
  | [] => [[]]
  | [byte] => [[byte]]
  | byte :: next :: rest =>
      if byte = first ∧ next = second then [] :: splitOnPair first second rest
      else
        match splitOnPair first second (next :: rest) with
        | [] => [[byte]]
        | part :: parts => (byte :: part) :: parts

/-- `text.lstrip(byte)`. -/
def lstrip (byte : UInt8) (text : List UInt8) : List UInt8 :=
  text.dropWhile (· == byte)

theorem mem_dropWhile {p : UInt8 → Bool} {byte : UInt8} {text : List UInt8}
    (kept : p byte = false) (member : byte ∈ text) : byte ∈ text.dropWhile p := by
  rw [← @List.takeWhile_append_dropWhile _ p text, List.mem_append] at member
  rcases member with dropped | member
  · rw [List.mem_takeWhile_imp dropped] at kept
    cases kept
  · exact member

theorem mem_rdropWhile {p : UInt8 → Bool} {byte : UInt8} {text : List UInt8}
    (kept : p byte = false) (member : byte ∈ text) :
    byte ∈ text.rdropWhile p := by
  rw [List.rdropWhile, List.mem_reverse]
  exact mem_dropWhile kept (List.mem_reverse.mpr member)

/-- `strip` takes white space only. -/
theorem mem_strip {byte : UInt8} {text : List UInt8}
    (black : isSpace byte = false) (member : byte ∈ text) : byte ∈ strip text :=
  mem_rdropWhile black (mem_dropWhile black member)

theorem strip_sublist (text : List UInt8) : (strip text).Sublist text :=
  (List.rdropWhile_prefix _ _).sublist.trans (List.dropWhile_suffix _).sublist

/-- White space on both sides of a text with none at its ends is taken off. -/
theorem strip_padded {left right text : List UInt8}
    (hleft : ∀ byte ∈ left, isSpace byte) (hright : ∀ byte ∈ right, isSpace byte)
    {first last : UInt8} (head : text.head? = some first)
    (hend : text.getLast? = some last) (hfirst : isSpace first = false)
    (hlast : isSpace last = false) : strip (left ++ text ++ right) = text := by
  have hdrop : (left ++ text ++ right).dropWhile isSpace = text ++ right := by
    obtain ⟨tail, rfl⟩ := List.head?_eq_some_iff.mp head
    rw [List.append_assoc, List.dropWhile_append_of_pos hleft, List.cons_append,
      List.dropWhile_cons_of_neg (by simp [hfirst])]
  obtain ⟨front, rfl⟩ := List.getLast?_eq_some_iff.mp hend
  rw [strip, hdrop, List.rdropWhile, List.reverse_append, List.reverse_append,
    List.dropWhile_append_of_pos (by simpa using hright), List.reverse_singleton,
    List.singleton_append, List.dropWhile_cons_of_neg (by simp [hlast]),
    List.reverse_cons, List.reverse_reverse]

/-! ## A separator of two bytes -/

section Pair

variable {first second : UInt8}

theorem not_infix_append_left {front text : List UInt8} (absent : first ∉ front)
    (free : ¬ [first, second] <:+: text) :
    ¬ [first, second] <:+: front ++ text := by
  induction front with
  | nil => exact free
  | cons byte front ih =>
      rw [List.cons_append, List.infix_cons_iff]
      rintro (here | later)
      · exact absent ((List.cons_prefix_cons.mp here).1 ▸ List.mem_cons_self)
      · exact ih (fun member => absent (List.mem_cons_of_mem _ member)) later

theorem not_infix_append_right {text back : List UInt8} (absent : second ∉ back)
    (free : ¬ [first, second] <:+: text) :
    ¬ [first, second] <:+: text ++ back := by
  rw [← List.reverse_infix, List.reverse_append]
  refine not_infix_append_left (by simpa using absent) ?_
  rwa [← List.reverse_infix] at free

/-- No part holds a separator; the first of them comes first in the text. -/
theorem splitOnPair_parts (text : List UInt8) :
    ∃ part parts, splitOnPair first second text = part :: parts ∧
      part <+: text ∧ ∀ p ∈ part :: parts, ¬ [first, second] <:+: p := by
  induction text using splitOnPair.induct first second with
  | case1 =>
      refine ⟨[], [], rfl, List.prefix_rfl, fun p member => ?_⟩
      rw [List.mem_singleton.mp member]
      simp
  | case2 byte =>
      refine ⟨[byte], [], rfl, List.prefix_rfl, fun p member within => ?_⟩
      rw [List.mem_singleton.mp member] at within
      exact absurd within.length_le (by simp)
  | case3 byte next rest same ih =>
      obtain ⟨part, parts, hsplit, -, hfree⟩ := ih
      refine ⟨[], part :: parts, ?_, List.nil_prefix, ?_⟩
      · rw [splitOnPair, if_pos same, hsplit]
      · rintro p (_ | ⟨_, member⟩)
        · simp
        · exact hfree p member
  | case4 byte next rest other hnil ih =>
      obtain ⟨part, parts, hsplit, -⟩ := ih
      exact absurd (hnil.symm.trans hsplit) (List.cons_ne_nil _ _).symm
  | case5 byte next rest other part parts hsplit ih =>
      obtain ⟨part', parts', hsplit', hprefix, hfree⟩ := ih
      obtain ⟨rfl, rfl⟩ := List.cons.inj (hsplit.symm.trans hsplit')
      refine ⟨byte :: part, parts, ?_, List.cons_prefix_cons.mpr ⟨rfl, hprefix⟩,
        ?_⟩
      · rw [splitOnPair, if_neg other, hsplit]
      · rintro p (_ | ⟨_, member⟩)
        · rw [List.infix_cons_iff]
          rintro (here | later)
          · -- The part goes on as the text does, which has no separator here.
            obtain ⟨hbyte, hsecond⟩ := List.cons_prefix_cons.mp here
            have hnext := (List.cons_prefix_cons.mp (hsecond.trans hprefix)).1
            exact other ⟨hbyte.symm, hnext.symm⟩
          · exact hfree part List.mem_cons_self later
        · exact hfree p (List.mem_cons_of_mem _ member)

/-- A separator that no byte in front of it overlaps cuts the text in two. -/
theorem splitOnPair_append {front : List UInt8} (back : List UInt8)
    (last : front.getLast? ≠ some first) :
    splitOnPair first second (front ++ first :: second :: back) =
      splitOnPair first second front ++ splitOnPair first second back := by
  induction front using splitOnPair.induct first second with
  | case1 => simp [splitOnPair]
  | case2 byte =>
      have other : byte ≠ first := fun same => last (by rw [same]; rfl)
      simp [splitOnPair, other]
  | case3 byte next rest same ih =>
      have hlast : rest.getLast? ≠ some first := by
        cases rest with
        | nil => simp
        | cons head tail => simpa only [List.getLast?_cons_cons] using last
      rw [List.cons_append, List.cons_append, splitOnPair, if_pos same,
        splitOnPair, if_pos same, ih hlast, List.cons_append]
  | case4 byte next rest other hnil ih =>
      obtain ⟨part, parts, hsplit, -⟩ :=
        @splitOnPair_parts first second (next :: rest)
      exact absurd (hnil.symm.trans hsplit) (List.cons_ne_nil _ _).symm
  | case5 byte next rest other part parts hsplit ih =>
      have hlater := ih (by rwa [List.getLast?_cons_cons] at last)
      rw [List.cons_append] at hlater
      rw [List.cons_append, List.cons_append, splitOnPair, if_neg other,
        splitOnPair, if_neg other, hlater, hsplit, List.cons_append,
        List.cons_append]

theorem splitOnPair_of_free {text : List UInt8}
    (free : ¬ [first, second] <:+: text) :
    splitOnPair first second text = [text] := by
  induction text using splitOnPair.induct first second with
  | case1 => rfl
  | case2 byte => rfl
  | case3 byte next rest same ih =>
      refine absurd ?_ free
      rw [same.1, same.2]
      exact (List.prefix_append [first, second] rest).isInfix
  | case4 byte next rest other hnil ih =>
      obtain ⟨part, parts, hsplit, -⟩ :=
        @splitOnPair_parts first second (next :: rest)
      exact absurd (hnil.symm.trans hsplit) (List.cons_ne_nil _ _).symm
  | case5 byte next rest other part parts hsplit ih =>
      have htail := ih fun later =>
        free (later.trans (List.suffix_cons byte _).isInfix)
      rw [splitOnPair, if_neg other, htail]

end Pair

/-- A text without the mark stands on one side of the mark. -/
theorem infix_append_cons {α : Type} {pattern front back : List α} {mark : α}
    (plain : mark ∉ pattern) (stands : pattern <:+: front ++ mark :: back) :
    pattern <:+: front ∨ pattern <:+: back := by
  obtain ⟨before, behind, same⟩ := stands
  rw [List.append_assoc, List.append_eq_append_iff] at same
  rcases same with ⟨middle, hfront, htail⟩ | ⟨middle, hbefore, htail⟩
  · rcases List.append_eq_append_iff.mp htail with
      ⟨rest, hmiddle, -⟩ | ⟨rest, hpattern, hrest⟩
    · exact Or.inl ⟨before, rest, by rw [hfront, hmiddle, List.append_assoc]⟩
    · cases rest with
      | nil =>
          refine Or.inl ⟨before, [], ?_⟩
          rw [hfront, hpattern, List.append_nil, List.append_nil]
      | cons first rest =>
          rw [List.cons_append, List.cons.injEq] at hrest
          refine absurd ?_ plain
          rw [hpattern, hrest.1]
          exact List.mem_append_right _ List.mem_cons_self
  · cases middle with
    | nil =>
        cases pattern with
        | nil => exact Or.inl List.nil_infix
        | cons first pattern =>
            rw [List.nil_append, List.cons_append, List.cons.injEq] at htail
            exact absurd (htail.1 ▸ List.mem_cons_self) plain
    | cons first middle =>
        rw [List.cons_append, List.cons.injEq] at htail
        exact Or.inr ⟨middle, behind, by
          rw [htail.2, List.append_assoc]⟩

end ByteString

end RiscosBuilder.Library
