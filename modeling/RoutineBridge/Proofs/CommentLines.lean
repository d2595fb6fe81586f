import RoutineBridge.Proofs.Documentation
import RoutineBridge.Proofs.Trimming

/-!
# Documentation in comment lines

Documentation is written line by line with a mark in front (`Piece.commentLine`), and the mark of an
empty line loses its blanks. No line ends in a blank, so the lines of what is written are the lines
that were written (`Text.lines_flatMap_concat`), and without their marks they are the lines of the
text (`Piece.uncomment_commentLine`). What is left out of a text is found at its edges: line feeds
in front and blanks behind (`Text.Core`). Main statement: comments hold the whole text and nothing
else (`Piece.render_doc_faithful`).
-/

namespace RoutineBridge

namespace Text

variable {cs core : List Char}

/-- A line that does not end in a blank loses nothing. -/
theorem dropReturn_of_trimEnd_eq (h : trimEnd cs = cs) : dropReturn cs = cs := by
  rw [dropReturn, if_neg]
  exact fun hlast => not_isBlank_of_trimEnd_eq h hlast (by decide)

/-- Lines that do not end in blanks are read as they were written. -/
theorem lines_flatMap_concat {ls : List (List Char)} (h : ∀ l ∈ ls, '\n' ∉ l ∧ trimEnd l = l) :
    lines (ls.flatMap (· ++ ['\n'])) = ls := by
  have hpieces : pieces (ls.flatMap (· ++ ['\n'])) = ls ++ [[]] := by
    induction ls with
    | nil => rfl
    | cons l ls ih =>
        obtain ⟨hl, hls⟩ := List.forall_mem_cons.mp h
        rw [List.flatMap_cons, List.append_assoc, List.singleton_append, pieces_append_cons,
          pieces_eq_singleton hl.1, ih hls]
        rfl
  have hreturn : ls.map dropReturn = ls :=
    (List.map_congr_left fun l hl => dropReturn_of_trimEnd_eq (h l hl).2).trans (List.map_id' ls)
  rw [lines, hpieces, List.dropLast_concat, hreturn, List.getLast?_concat]
  exact List.append_nil ls

theorem lines_ne_nil (h : cs ≠ []) : lines cs ≠ [] := by
  intro hnil
  obtain ⟨hfront, hlast⟩ := List.append_eq_nil_iff.mp hnil
  obtain ⟨last, hpieces⟩ : ∃ last, pieces cs = [last] := by
    obtain ⟨front, last, heq⟩ :=
      (List.eq_nil_or_concat' (pieces cs)).resolve_left (pieces_ne_nil cs)
    rw [heq, List.dropLast_concat, List.map_eq_nil_iff] at hfront
    exact ⟨last, by rw [heq, hfront, List.nil_append]⟩
  have htext := join_pieces cs
  rw [hpieces, join] at htext
  simp [hpieces, htext, h] at hlast

/-- What is left of a text without the line feeds in front of it and the blanks behind it, if that
is anything. -/
structure Core (cs core : List Char) : Prop where
  edges : ∃ feeds blanks, cs = feeds ++ (core ++ blanks) ∧ (∀ c ∈ feeds, c = '\n') ∧
    isBlankText blanks
  head : core.head? ≠ some '\n'
  last : ∃ front c, core = front ++ [c] ∧ ¬ isBlank c

theorem Core.not_isBlankText (h : Core cs core) : ¬ isBlankText cs := by
  obtain ⟨feeds, blanks, rfl, -, -⟩ := h.edges
  obtain ⟨front, c, rfl, hc⟩ := h.last
  simp [isBlankText, hc]

theorem Core.eq (h : Core cs core) : core = trimEnd (cs.dropWhile (· == '\n')) := by
  obtain ⟨feeds, blanks, rfl, hfeeds, hblanks⟩ := h.edges
  have hhead := h.head
  obtain ⟨front, c, rfl, hc⟩ := h.last
  have hrest : (front ++ [c] ++ blanks).dropWhile (· == '\n') = front ++ [c] ++ blanks := by
    cases front with
    | nil => exact List.dropWhile_cons_of_neg (by simpa using hhead)
    | cons d front => exact List.dropWhile_cons_of_neg (by simpa using hhead)
  rw [List.dropWhile_append_of_pos (by simpa using hfeeds), hrest, trimEnd_append hblanks,
    trimEnd_concat hc]

theorem core_trimEnd (h : ¬ isBlankText cs) :
    Core cs (trimEnd (cs.dropWhile (· == '\n'))) := by
  obtain ⟨blanks, hblanks, hrest⟩ := exists_trimEnd_append (cs.dropWhile (· == '\n'))
  have hsplit : cs = cs.takeWhile (· == '\n') ++
      (trimEnd (cs.dropWhile (· == '\n')) ++ blanks) := by
    rw [← hrest, List.takeWhile_append_dropWhile]
  have hfeeds : ∀ c ∈ cs.takeWhile (· == '\n'), c = '\n' := fun c hc => by
    simpa using List.mem_takeWhile_imp hc
  obtain hnil | ⟨front, c, hcore⟩ :=
    List.eq_nil_or_concat' (trimEnd (cs.dropWhile (· == '\n')))
  · refine absurd ?_ h
    rw [hsplit, hnil]
    have hnewline : isBlank '\n' := by decide
    simp only [isBlankText, List.nil_append, List.all_append, Bool.and_eq_true]
    exact ⟨List.all_eq_true.mpr fun c hc => hfeeds c hc ▸ hnewline, hblanks⟩
  · refine ⟨⟨_, _, hsplit, hfeeds, hblanks⟩, ?_, front, c, hcore, ?_⟩
    · have hfirst := List.head?_dropWhile_not (· == '\n') cs
      rw [hrest, hcore] at hfirst
      rw [hcore]
      cases front <;> simpa using hfirst
    · exact not_isBlank_of_trimEnd_eq (trimEnd_trimEnd _) (by rw [hcore, List.getLast?_concat])

end Text

namespace Piece

variable {mark line : List Char}

/-- A line without the mark in front of it; behind the mark of an empty line there is nothing. -/
def uncomment (mark line : List Char) : List Char :=
  if mark.isPrefixOf line then line.drop mark.length else line.drop (Text.trimEnd mark).length

theorem uncomment_commentLine (mark line : List Char) :
    uncomment mark (commentLine mark line) = line := by
  rw [commentLine]
  split
  · rename_i hempty
    rw [List.isEmpty_iff.mp hempty, uncomment, List.drop_length]
    have hlength := (trimEnd_isPrefix mark).length_le
    split
    · exact List.drop_eq_nil_of_le hlength
    · rfl
  · rw [uncomment, if_pos (by simp), List.drop_left]

theorem trimEnd_isPrefix_commentLine (mark line : List Char) :
    Text.trimEnd mark <+: commentLine mark line := by
  rw [commentLine]
  split
  · exact List.prefix_rfl
  · exact (trimEnd_isPrefix mark).trans (List.prefix_append mark line)

theorem newline_notMem_commentLine (hmark : '\n' ∉ mark) (hline : '\n' ∉ line) :
    '\n' ∉ commentLine mark line := by
  rw [commentLine]
  split
  · exact fun h => hmark ((trimEnd_isPrefix mark).subset h)
  · simp [hmark, hline]

/-- No comment line ends in a blank. -/
theorem trimEnd_commentLine (mark : List Char) (hline : Text.trimEnd line = line) :
    Text.trimEnd (commentLine mark line) = commentLine mark line := by
  rw [commentLine]
  split
  · exact Text.trimEnd_trimEnd mark
  · rename_i hempty
    obtain ⟨front, c, rfl⟩ :=
      (List.eq_nil_or_concat' line).resolve_left fun hnil => hempty (hnil ▸ rfl)
    have hvisible := Text.not_isBlank_of_trimEnd_eq hline (List.getLast?_concat ..)
    rw [← List.append_assoc]
    exact Text.trimEnd_concat hvisible _

/-- What is written has a line for every line of the text. -/
theorem lines_commentLines {text : List Char} (hmark : '\n' ∉ mark)
    (htext : ¬ Text.isBlankText text) :
    Text.lines (commentLines mark text) = (docLines text).map (commentLine mark) := by
  have hconcat : commentLines mark text =
      ((docLines text).map (commentLine mark)).flatMap (· ++ ['\n']) := by
    rw [commentLines, if_neg htext, List.flatMap_map]
  rw [hconcat, Text.lines_flatMap_concat]
  intro l hl
  obtain ⟨line, hline, rfl⟩ := List.mem_map.mp hl
  obtain ⟨whole, -, htrimmed⟩ := List.mem_map.mp hline
  refine ⟨newline_notMem_commentLine hmark (notMem_of_mem_docLines hline), ?_⟩
  exact trimEnd_commentLine mark (htrimmed ▸ Text.trimEnd_trimEnd whole)

theorem getLast?_commentLines {text : List Char} (htext : ¬ Text.isBlankText text)
    (hlines : docLines text ≠ []) : (commentLines mark text).getLast? = some '\n' := by
  obtain ⟨front, line, heq⟩ := (List.eq_nil_or_concat' (docLines text)).resolve_left hlines
  rw [commentLines, if_neg htext, heq, List.flatMap_append, List.flatMap_singleton,
    ← List.append_assoc, List.getLast?_concat]

/-! ## Marks -/

/-- Documentation gets this mark in the schema or in the wrapper. -/
def IsUsedMark (mark : String) : Prop :=
  ∃ m options calls text,
    Piece.doc mark text ∈ Schema.pieces m options calls ++ Wrapper.pieces m options calls

theorem Alike.isMark {ps qs : List Piece} (h : Alike ps qs) {mark s : String}
    (hmem : .doc mark s ∈ qs) : IsMark mark.toList := by
  induction h with
  | nil => cases hmem
  | text _ _ ih => exact ih (by simpa using hmem)
  | left _ _ ih => exact ih hmem
  | right isMark _ ih =>
      rcases List.mem_cons.mp hmem with heq | hmem
      · rw [(Piece.doc.inj heq).1]
        exact isMark
      · exact ih hmem

theorem IsUsedMark.isMark {mark : String} (h : IsUsedMark mark) : IsMark mark.toList := by
  obtain ⟨m, options, calls, text, hmem⟩ := h
  have halike := (Schema.alike_pieces m options calls).append (Wrapper.alike_pieces m options calls)
  exact halike.isMark hmem

/-- **Comments hold the whole text and nothing else.** A blank text is not written at all. Any other
text is written in whole lines with the mark in front of every one of them, and without the marks
they are its lines, from the first that is not empty to the last that is not blank. -/
theorem render_doc_faithful {mark : String} (hused : IsUsedMark mark) (text : String) :
    ((Piece.doc mark text).render = [] ↔ Text.isBlankText text.toList) ∧
      (¬ Text.isBlankText text.toList → ∃ core, Text.Core text.toList core) ∧
      ∀ core, Text.Core text.toList core →
        (Piece.doc mark text).render.getLast? = some '\n' ∧
          (∀ line ∈ Text.lines (Piece.doc mark text).render, Text.trimEnd mark.toList <+: line) ∧
          (Text.lines (Piece.doc mark text).render).map (uncomment mark.toList) =
            (Text.lines core).map Text.trimEnd := by
  have hdocLines : ∀ core, Text.Core text.toList core →
      docLines text.toList = (Text.lines core).map Text.trimEnd := by
    rintro core hcore
    rw [docLines, ← hcore.eq]
  have hends : ∀ core, Text.Core text.toList core →
      (commentLines mark.toList text.toList).getLast? = some '\n' := by
    intro core hcore
    refine getLast?_commentLines hcore.not_isBlankText ?_
    obtain ⟨front, c, hlast, -⟩ := hcore.last
    rw [hdocLines core hcore, Ne, List.map_eq_nil_iff]
    exact Text.lines_ne_nil (by simp [hlast])
  refine ⟨⟨fun hnil => ?_, fun hblank => ?_⟩, fun h => ⟨_, Text.core_trimEnd h⟩,
    fun core hcore => ?_⟩
  · by_contra hvisible
    have hlast := hends _ (Text.core_trimEnd hvisible)
    rw [show commentLines mark.toList text.toList = [] from hnil] at hlast
    cases hlast
  · exact if_pos hblank
  · have hlines := lines_commentLines hused.isMark.2 hcore.not_isBlankText
    refine ⟨hends core hcore, ?_, ?_⟩
    · intro line hline
      rw [render, hlines] at hline
      obtain ⟨l, -, rfl⟩ := List.mem_map.mp hline
      exact trimEnd_isPrefix_commentLine mark.toList l
    · rw [render, hlines, List.map_map, hdocLines core hcore]
      exact (List.map_congr_left fun l _ => uncomment_commentLine mark.toList l).trans
        (List.map_id' _)

theorem render_doc_faithful_sample :
    IsUsedMark "/// " ∧
      Text.Core "\n\r\n  first\r\n\n /// \n ".toList "\r\n  first\r\n\n ///".toList ∧
      (Text.lines (Piece.doc "/// " "\n\r\n  first\r\n\n /// \n ").render).map
        (uncomment "/// ".toList) = [[], "  first".toList, [], " ///".toList] := by
  have hused : IsUsedMark "/// " := by
    refine ⟨Model.freeze [] .empty {}, {}, [(Routine.named "APP" "PKG" "FIND", default)], "", ?_⟩
    have hcommon : DocBlock.empty.common = "" := rfl
    simp [Wrapper.pieces, Wrapper.callStructures, Wrapper.messageStruct, Routine.named, hcommon]
  have hcore : Text.Core "\n\r\n  first\r\n\n /// \n ".toList
      "\r\n  first\r\n\n ///".toList :=
    ⟨⟨['\n'], [' ', '\n', ' '], by decide, by simp, by decide⟩, by decide,
      "\r\n  first\r\n\n //".toList, '/', by decide, by decide⟩
  refine ⟨hused, hcore, ?_⟩
  rw [((render_doc_faithful hused _).2.2 _ hcore).2.2]
  decide

end Piece

end RoutineBridge
