import RiscosBuilder.FileCore.PatchCommand
import RiscosBuilder.FileCore.Recovery
import RiscosBuilder.Library.Session
import RiscosBuilder.Library.Slots

/-!
# Stored trees

A tree written to an image together with its files: every file of a fragment
that is known has a slot, clear of all other slots and of the blocks.  A text
put into a slot leaves such an image, unless the text holds a block's magic.
-/

namespace RiscosBuilder.FileCore

open RiscosBuilder.Library RiscosBuilder.Library.ByteImage

/-- A directory of the tree lies in the fragment, and makes its base known. -/
def Tree.calibrated (tree : Tree) (fragment : Nat) : Bool :=
  tree.directories.any fun d => d.addr / 256 = fragment

/-- The slot of a file. -/
def fileSlot (base : Nat → Nat) (e : Entry) : Slot :=
  ⟨place base e.ind, e.length⟩

/-- The extent of the block written for a directory. -/
def blockSlot (base : Nat → Nat) (layout : Directory → Layout)
    (d : Directory) : Slot :=
  ⟨place base d.addr,
    heapAt d (place base d.addr) + (layout d).namesSize - place base d.addr⟩

/-- The files that have a slot, by full path. -/
def Tree.placed (tree : Tree) (base : Nat → Nat) : List (Path × Entry) :=
  (tree.entries (place base)).filter fun object =>
    !object.2.isdir && tree.calibrated (object.2.ind / 256)

/-- The image holds the tree, with room for its files and no other magic. -/
structure Stored (m : List UInt8) (tree : Tree) (base : Nat → Nat)
    (layout : Directory → Layout) : Prop extends Live m tree base layout where
  magics : ∀ i ∈ occurrences SBPr 0 m, 4 ≤ i → (i - 4) % SECTOR = 0 →
    ∃ d ∈ tree.directories, i = place base d.addr + 4
  rootLast : ∀ d ∈ tree.contents.directories tree.addr,
    d.parent = tree.addr → d.name = ascii "$" →
      place base d.addr < place base tree.addr
  inside : ∀ object ∈ tree.placed base, (fileSlot base object.2).Inside m
  apart : (tree.placed base).Pairwise fun first second =>
    (fileSlot base first.2).Apart (fileSlot base second.2)
  clear : ∀ object ∈ tree.placed base, ∀ d ∈ tree.directories,
    (fileSlot base object.2).Apart (blockSlot base layout d)

/-! ## What is written into a slot -/

/-- Rewriting line ends makes no text that holds no LF. -/
theorem prefix_of_prefix_replaceCRLF {pattern body : List UInt8}
    (plain : LF ∉ pattern) (stands : pattern <+: replaceCRLF body) :
    pattern <+: body := by
  induction body using replaceCRLF.induct generalizing pattern with
  | case1 => exact stands
  | case2 byte => exact stands
  | case3 byte next rest pair ih =>
      rw [replaceCRLF, if_pos pair] at stands
      cases pattern with
      | nil => exact List.nil_prefix
      | cons first pattern =>
          rw [List.cons_prefix_cons] at stands
          exact absurd (stands.1 ▸ List.mem_cons_self) plain
  | case4 byte next rest other ih =>
      rw [replaceCRLF, if_neg other] at stands
      cases pattern with
      | nil => exact List.nil_prefix
      | cons first pattern =>
          rw [List.cons_prefix_cons] at stands ⊢
          exact ⟨stands.1, ih (fun member => plain (List.mem_cons_of_mem _ member))
            stands.2⟩

theorem infix_of_infix_replaceCRLF {pattern body : List UInt8}
    (plain : LF ∉ pattern) (stands : pattern <:+: replaceCRLF body) :
    pattern <:+: body := by
  induction body using replaceCRLF.induct with
  | case1 => exact stands
  | case2 byte => exact stands
  | case3 byte next rest pair ih =>
      rw [replaceCRLF, if_pos pair, List.infix_cons_iff] at stands
      have hbehind : rest <:+: byte :: next :: rest :=
        (List.suffix_append [byte, next] rest).isInfix
      rcases stands with front | later
      · have hrewritten : pattern <+: replaceCRLF (byte :: next :: rest) := by
          rwa [replaceCRLF, if_pos pair]
        exact (prefix_of_prefix_replaceCRLF plain hrewritten).isInfix
      · exact (ih later).trans hbehind
  | case4 byte next rest other ih =>
      have hwhole := stands
      rw [replaceCRLF, if_neg other, List.infix_cons_iff] at stands
      rcases stands with front | later
      · have hrewritten : pattern <+: replaceCRLF (byte :: next :: rest) := by
          rwa [replaceCRLF, if_neg other]
        exact (prefix_of_prefix_replaceCRLF plain hrewritten).isInfix
      · exact (ih later).trans (List.suffix_cons _ _).isInfix

/-- What a patch writes into a slot of a given size. -/
def scriptBytes (body : List UInt8) (size : Nat) : List UInt8 :=
  normalise body ++ padding (size - (normalise body).length)

theorem scriptBytes_length {body : List UInt8} {size : Nat}
    (fits : (normalise body).length ≤ size) :
    (scriptBytes body size).length = size := by
  rw [scriptBytes, List.length_append, padding_length]
  omega

theorem mem_padding {pad : Nat} {byte : UInt8} (member : byte ∈ padding pad) :
    byte = LF ∨ byte = 0x7c ∨ byte = 0x20 := by
  unfold padding at member
  split at member
  · exact Or.inl (List.mem_singleton.mp member)
  · split at member
    · simp only [List.mem_append, List.mem_cons, List.mem_replicate,
        List.not_mem_nil, or_false] at member
      rcases member with (bar | ⟨-, blank⟩) | line
      · exact Or.inr (Or.inl bar)
      · exact Or.inr (Or.inr blank)
      · exact Or.inl line
    · simp at member

theorem normalise_eq_line (body : List UInt8) :
    ∃ text, normalise body = text ++ [LF] ∧ text <+: replaceCRLF body := by
  unfold normalise
  by_cases ends : (replaceCRLF body).getLast? = some LF
  · obtain ⟨text, htext⟩ := List.getLast?_eq_some_iff.mp ends
    simp only [if_pos ends]
    exact ⟨text, htext, htext ▸ List.prefix_append _ _⟩
  · simp only [if_neg ends]
    exact ⟨_, rfl, List.prefix_refl _⟩

/-- A text puts no pattern into a slot that it does not hold. -/
theorem pattern_not_in_script {pattern body : List UInt8} (plain : LF ∉ pattern)
    (speaks : ∃ byte ∈ pattern, byte ≠ 0x7c ∧ byte ≠ 0x20)
    (clean : ¬ pattern <:+: body) (size : Nat) :
    ¬ pattern <:+: scriptBytes body size := by
  intro stands
  obtain ⟨text, hline, hfront⟩ := normalise_eq_line body
  rw [scriptBytes, hline, List.append_assoc, List.singleton_append] at stands
  rcases ByteString.infix_append_cons plain stands with inText | inPadding
  · exact clean (infix_of_infix_replaceCRLF plain (inText.trans hfront.isInfix))
  · obtain ⟨byte, member, bar, blank⟩ := speaks
    rcases mem_padding (inPadding.mem member) with line | other
    · exact plain (line ▸ member)
    · exact other.elim bar blank

theorem getLast?_scriptBytes (body : List UInt8) (size : Nat) :
    (scriptBytes body size).getLast? = some LF := by
  unfold scriptBytes padding
  split
  · exact List.getLast?_concat
  · split
    · rw [← List.append_assoc]
      exact List.getLast?_concat
    · rw [List.append_nil]
      exact getLast?_normalise body

/--
A pattern that the text does not hold stands behind a filled slot if it stands at
or behind its start: what reaches beyond the end would hold the LF at the end.
-/
theorem pattern_behind {m data pattern : List UInt8} {slot : Slot}
    (inside : slot.Inside m) (fits : data.length = slot.size)
    (plain : LF ∉ pattern) (clean : ¬ pattern <:+: data)
    (ends : data.getLast? = some LF) {i : Nat} (low : slot.start ≤ i)
    (holds : Holds (slot.fill m data) i pattern) : slot.stop ≤ i := by
  by_contra high
  by_cases within : i + pattern.length ≤ slot.stop
  · have hdata := Slot.holds_of_fill_within inside fits low within holds
    exact clean (hdata.isInfix.trans (List.drop_suffix _ _).isInfix)
  · have hlast : (slot.fill m data)[slot.stop - 1]? = some LF := by
      rw [Slot.getElem?_fill_within inside fits (by unfold Slot.stop at *; omega)
        (by omega), ← ends, List.getLast?_eq_getElem?, fits]
      congr 1
      unfold Slot.stop
      omega
    have hbyte : (slot.fill m data)[slot.stop - 1]? =
        pattern[slot.stop - 1 - i]? := by
      obtain ⟨rest, hrest⟩ := holds
      have hdrop := congrArg (fun bytes => bytes[slot.stop - 1 - i]?) hrest
      simp only [List.getElem?_drop] at hdrop
      rw [List.getElem?_append_left (by omega),
        Nat.add_sub_cancel' (by omega)] at hdrop
      exact hdrop.symm
    exact plain (List.mem_of_getElem? (hbyte.symm.trans hlast))

/--
A slot that begins at a sector is filled without making a magic where a block
could begin.
-/
theorem magic_of_fill {m data : List UInt8} {slot : Slot}
    (inside : slot.Inside m) (fits : data.length = slot.size)
    (aligned : slot.start % SECTOR = 0) (clean : ¬ SBPr <:+: data)
    (ends : data.getLast? = some LF) {i : Nat}
    (found : i ∈ occurrences SBPr 0 (slot.fill m data)) (low : 4 ≤ i)
    (sector : (i - 4) % SECTOR = 0) : i ∈ occurrences SBPr 0 m := by
  obtain ⟨-, hsize, hstands⟩ := mem_occurrences.mp found
  rw [Nat.zero_add, Slot.fill_length inside fits] at hsize
  have hholds : Holds (slot.fill m data) i SBPr := hstands
  have hmagic : SBPr.length = 4 := rfl
  have happart : i + SBPr.length ≤ slot.start ∨ slot.stop ≤ i := by
    by_cases before : i + SBPr.length ≤ slot.start
    · exact Or.inl before
    · simp only [SECTOR] at aligned sector
      exact Or.inr (pattern_behind inside fits (by decide) clean ends (by omega)
        hholds)
  exact mem_occurrences.mpr ⟨Nat.zero_le _, by omega,
    (Slot.holds_fill_iff inside fits happart).mp hholds⟩

/-! ## What filling a slot leaves -/

/-- A block that is apart from the slot stands there still. -/
theorem BlockAt.fill {m data : List UInt8} {off : Nat} {d : Directory}
    {layout : Layout} {slot : Slot} (block : BlockAt m off d layout)
    (inside : slot.Inside m) (fits : data.length = slot.size)
    (apart : slot.stop ≤ off ∨ heapAt d off + layout.namesSize ≤ slot.start) :
    BlockAt (slot.fill m data) off d layout := by
  have hstill : ∀ {place : Nat} {bytes : List UInt8}, off ≤ place →
      place + bytes.length ≤ heapAt d off + layout.namesSize →
      Holds m place bytes → Holds (slot.fill m data) place bytes := by
    intro place bytes low high holds
    exact (Slot.holds_fill_iff inside fits (by omega)).mpr holds
  have hentries : ((d.infos.zip layout.offsets).flatMap fun pair =>
      entryBytes pair.1 pair.2).length = ENTRY * d.infos.length := by
    have hzip : (d.infos.zip layout.offsets).length = d.infos.length := by
      rw [List.length_zip, block.paired, Nat.min_self]
    rw [List.length_flatMap]
    simp only [entryBytes_length, List.map_const', List.sum_replicate_nat,
      hzip]
    exact Nat.mul_comm _ _
  refine ⟨block.size_pos, block.size_le, block.paired, ?_, ?_, ?_,
    block.namesSize_lt, block.names_inside, ?_⟩
  · refine hstill (by omega) ?_ block.header
    have hmagic : SBPr.length = 4 := rfl
    simp only [headerBytes, List.length_append, packWords_length, hmagic,
      List.length_cons, List.length_nil, heapAt, entriesAt, align4]
    omega
  · refine hstill (by unfold entriesAt; omega) ?_ block.entries
    rw [hentries, heapAt]
    omega
  · rw [Slot.fill_length inside fits]
    exact block.heap
  · intro pair member
    refine hstill (by unfold heapAt entriesAt; omega) ?_
      (block.names pair member)
    have hname := block.names_inside pair member
    omega

theorem mem_placed {tree : Tree} {base : Nat → Nat} {object : Path × Entry} :
    object ∈ tree.placed base ↔ object ∈ tree.entries (place base) ∧
      object.2.isdir = false ∧ tree.calibrated (object.2.ind / 256) = true := by
  simp only [Tree.placed, List.mem_filter, Bool.and_eq_true, Bool.not_eq_true']

namespace Stored

variable {m : List UInt8} {tree : Tree} {base : Nat → Nat}
  {layout : Directory → Layout}

theorem written (stored : Stored m tree base layout) :
    Written m tree base layout :=
  ⟨stored.toLive, fun i found low sector _ =>
    stored.magics i found low sector⟩

/-- The volume that the tool opens shows the tree. -/
theorem load (stored : Stored m tree base layout) :
    ∃ v, Volume.load m = .ok v ∧ v.m = m ∧ Shows v tree base := by
  obtain ⟨dirs, scanned, hblocks, ascending⟩ := scanDirs_total m
  exact stored.load_shows scanned
    ((findRoot_eq_some_iff ascending).mpr (stored.written.isRoot hblocks))
    (stored.written.kidsFound stored.rootLast hblocks ascending)

/-- A script that is clear of the blocks leaves the tree and the slots in place. -/
theorem fill_slot (stored : Stored m tree base layout) {slot : Slot}
    (inside : slot.Inside m) (aligned : slot.start % SECTOR = 0)
    (clear : ∀ d ∈ tree.directories, slot.Apart (blockSlot base layout d))
    {body : List UInt8} (fits : (normalise body).length ≤ slot.size)
    (clean : ¬ SBPr <:+: body) :
    Stored (slot.fill m (scriptBytes body slot.size)) tree base layout := by
  have hfits : (scriptBytes body slot.size).length = slot.size :=
    scriptBytes_length fits
  have hends := getLast?_scriptBytes body slot.size
  have hpositive : 0 < slot.size := by
    rw [← hfits]
    exact List.length_pos_of_ne_nil fun empty => by simp [empty] at hends
  have hmagic := pattern_not_in_script (by decide) ⟨0x53, by decide, by decide⟩
    clean slot.size
  refine ⟨⟨stored.valid, stored.aligned, ?_⟩, ?_, stored.rootLast, ?_,
    stored.apart, stored.clear⟩
  · intro d hd
    have hapart := clear d hd
    refine (stored.blocks d hd).fill inside hfits ?_
    unfold Slot.Apart blockSlot Slot.stop heapAt entriesAt at *
    simp only at hapart hpositive ⊢
    omega
  · intro i found low sector
    exact stored.magics i (magic_of_fill inside hfits aligned hmagic hends found
      low sector) low sector
  · intro other hother
    exact (Slot.fill_inside inside hfits).mpr (stored.inside other hother)

/-- So does a script in one of the slots. -/
theorem fill (stored : Stored m tree base layout) {object : Path × Entry}
    (member : object ∈ tree.placed base) {body : List UInt8}
    (fits : (normalise body).length ≤ object.2.length)
    (clean : ¬ SBPr <:+: body) :
    Stored ((fileSlot base object.2).fill m
      (scriptBytes body object.2.length)) tree base layout :=
  stored.fill_slot (stored.inside object member) (place_mod stored.aligned _)
    (stored.clear object member) fits clean

theorem slots_apart (stored : Stored m tree base layout)
    {first second : Path × Entry} (hfirst : first ∈ tree.placed base)
    (hsecond : second ∈ tree.placed base) (different : first ≠ second) :
    (fileSlot base first.2).Apart (fileSlot base second.2) := by
  have hsymm : Std.Symm fun a b : Path × Entry =>
      (fileSlot base a.2).Apart (fileSlot base b.2) :=
    ⟨fun _ _ apart => apart.symm⟩
  exact stored.apart.forall hfirst hsecond different

end Stored

end RiscosBuilder.FileCore
