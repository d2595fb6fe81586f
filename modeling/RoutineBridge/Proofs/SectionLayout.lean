import RoutineBridge.Proofs.Extensionality
import RoutineBridge.Proofs.Trimming
import RoutineBridge.Source.Sections

/-!
# Written documentation is read back

Documentation has a form in which it is written: the common part, a header for each section, and
an item for each parameter, with the further lines of a description indented under its name
(`Sections.Content.lines`). Main statement: what is written in this form is read back as it was
(`Sections.split_lines`). The headers are found because no line of an item can be taken for one
(`Item.not_isSectionHeader`), the items because all but their first lines are indented further
(`itemsOf_flatMap_lines`), and the names because no separator stands in them (`entry?_item`).
-/

namespace RoutineBridge.Sections

/-! ## Indented lines -/

def indent (n : Nat) (cs : List Char) : List Char := List.replicate n ' ' ++ cs

/-- Behind `n` blanks the line begins and ends with something visible. -/
def Indented (n : Nat) (line : List Char) : Prop := ∃ cs, line = indent n cs ∧ Text.Solid cs

theorem isBlankText_replicate (n : Nat) : Text.isBlankText (List.replicate n ' ') := by
  have hblank : Text.isBlank ' ' := by decide
  simp [Text.isBlankText, hblank]

section Lines

variable {n : Nat} {cs line : List Char}

theorem trim_indent (h : Text.Solid cs) : Text.trim (indent n cs) = cs := by
  have hnil : Text.isBlankText [] := rfl
  simpa [indent] using h.trim_append (isBlankText_replicate n) hnil

theorem newline_mem_indent : '\n' ∈ indent n cs ↔ '\n' ∈ cs := by
  simp [indent]

theorem Indented.not_isBlankText (h : Indented n line) : ¬ Text.isBlankText line := by
  obtain ⟨cs, rfl, hsolid⟩ := h
  rw [indent, Text.isBlankText, List.all_append, Bool.and_eq_true, not_and]
  exact fun _ => hsolid.not_isBlankText

theorem Indented.indentation_eq (h : Indented n line) : indentation line = n := by
  obtain ⟨cs, rfl, hsolid⟩ := h
  obtain ⟨c, rest, rfl, hc⟩ := hsolid.head
  have hblank : ∀ d ∈ List.replicate n ' ', Text.isBlank d :=
    List.all_eq_true.mp (isBlankText_replicate n)
  rw [indentation, indent, List.takeWhile_append_of_pos hblank, List.takeWhile_cons_of_neg hc,
    List.append_nil]
  induction n with
  | zero => rfl
  | succ n ih =>
      have hsize : ' '.utf8Size = 1 := by decide
      rw [List.replicate_succ, List.foldr_cons, ih (fun d hd => hblank d (by simp_all)), hsize]
      omega

/-- Lines that are joined are indented like the first of them. -/
theorem Indented.join {ls : List (List Char)} (h : Indented n line)
    (hls : ∀ l ∈ ls, ∃ m, Indented m l) : Indented n (Text.join ['\n'] (line :: ls)) := by
  induction ls generalizing n line with
  | nil => exact h
  | cons l ls ih =>
      obtain ⟨⟨m, hl⟩, hrest⟩ := List.forall_mem_cons.mp hls
      obtain ⟨cs, rfl, hsolid⟩ := h
      obtain ⟨ds, hjoin, hjoined⟩ := ih hl hrest
      refine ⟨cs ++ ('\n' :: List.replicate m ' ' ++ ds), ?_, hsolid.append _ hjoined⟩
      rw [Text.join_cons (List.cons_ne_nil l ls), hjoin]
      simp [indent]

end Lines

/-! ## Headers -/

def isSectionHeader (line : List Char) : Bool := isInputHeader line || isOutputHeader line

section Headers

variable {headers : List String} {front rest : List Char}

theorem headerCore_indent (n : Nat) (cs : List Char) :
    headerCore (indent n cs) = headerCore cs := by
  have hspace : ∀ c ∈ List.replicate n ' ', isTabOrSpace c := by
    intro c hc
    rw [List.eq_of_mem_replicate hc]
    rfl
  rw [headerCore, headerCore, indent, List.dropWhile_append_of_pos hspace]

theorem isSectionHeader_indent (n : Nat) (cs : List Char) :
    isSectionHeader (indent n cs) = isSectionHeader cs := by
  simp only [isSectionHeader, isInputHeader, isOutputHeader, isHeader, headerCore_indent]

theorem isBlank_of_isTabOrSpace {c : Char} (h : isTabOrSpace c) : Text.isBlank c := by
  rw [isTabOrSpace, Bool.or_eq_true, beq_iff_eq, beq_iff_eq] at h
  rcases h with rfl | rfl <;> decide

/-- A colon is all that a text between visible characters can lose, and only at its end. -/
theorem headerCore_append (h : Text.Solid (front ++ rest)) (hrest : rest ≠ []) :
    ∃ rest', headerCore (front ++ rest) = front ++ rest' := by
  have hstart : (front ++ rest).dropWhile isTabOrSpace = front ++ rest := by
    obtain ⟨c, cs, hcs, hc⟩ := h.head
    rw [hcs, List.dropWhile_cons_of_neg fun hspace => hc (isBlank_of_isTabOrSpace hspace)]
  have hend : (front ++ rest).reverse.dropWhile isTabOrSpace = (front ++ rest).reverse := by
    obtain ⟨cs, c, hcs, hc⟩ := h.last
    rw [hcs, List.reverse_concat,
      List.dropWhile_cons_of_neg fun hspace => hc (isBlank_of_isTabOrSpace hspace)]
  rw [headerCore, hstart, hend, List.reverse_reverse]
  split
  · exact ⟨rest.dropLast, List.dropLast_append_of_ne_nil hrest⟩
  · exact ⟨rest, rfl⟩

/-- No header has a dash behind its first character. -/
theorem not_isHeader_of_dash {c : Char} {mid : List Char} (h : Text.Solid (c :: mid ++ rest))
    (hrest : rest ≠ []) (hdash : '-' ∈ mid)
    (hheaders : ∀ header ∈ headers, '-' ∉ header.toList.tail) :
    ¬ isHeader headers (c :: mid ++ rest) := by
  intro hheader
  obtain ⟨header, hmem, hequal⟩ := List.any_eq_true.mp hheader
  obtain ⟨rest', hcore⟩ := headerCore_append h hrest
  have htail : header.toList.tail = mid.map headerLetter ++ rest'.map headerLetter := by
    rw [beq_iff_eq.mp hequal, hcore]
    simp
  refine hheaders header hmem ?_
  rw [htail]
  exact List.mem_append_left _ (List.mem_map.mpr ⟨'-', hdash, by decide⟩)

end Headers

/-! ## What is written -/

/-- A line of a description: neither empty nor with blanks around it. -/
structure IsLine (line : List Char) : Prop where
  nonempty : line ≠ []
  trimmed : Text.trim line = line
  single : '\n' ∉ line

instance (line : List Char) : Decidable (IsLine line) :=
  decidable_of_iff (line ≠ [] ∧ Text.trim line = line ∧ '\n' ∉ line)
    ⟨fun ⟨h₁, h₂, h₃⟩ => ⟨h₁, h₂, h₃⟩, fun ⟨h₁, h₂, h₃⟩ => ⟨h₁, h₂, h₃⟩⟩

theorem IsLine.solid {line : List Char} (h : IsLine line) : Text.Solid line :=
  Text.solid_of_trim h.trimmed h.nonempty

/-- A description, in lines; a header can stand in the first of them only. -/
structure Description where
  first : List Char
  further : List (List Char)
  first_isLine : IsLine first
  further_isLine : ∀ line ∈ further, IsLine line
  not_isSectionHeader : ∀ line ∈ further, ¬ isSectionHeader line

/-- The description as it is held. -/
def Description.text (d : Description) : String :=
  String.ofList (Text.join ['\n'] (d.first :: d.further))

/-- A name that an item can have. -/
structure IsItemName (name : String) : Prop where
  nonempty : name.toList ≠ []
  trimmed : Text.trim name.toList = name.toList
  unseparated : ∀ c ∈ name.toList, ¬ isSeparator c
  single : '\n' ∉ name.toList

instance (name : String) : Decidable (IsItemName name) :=
  decidable_of_iff
    (name.toList ≠ [] ∧ Text.trim name.toList = name.toList ∧
      name.toList.all (!isSeparator ·) ∧ '\n' ∉ name.toList)
    ⟨fun ⟨h₁, h₂, h₃, h₄⟩ => ⟨h₁, h₂, by simpa using h₃, h₄⟩,
      fun ⟨h₁, h₂, h₃, h₄⟩ => ⟨h₁, h₂, by simpa using h₃, h₄⟩⟩

theorem IsItemName.solid {name : String} (h : IsItemName name) : Text.Solid name.toList :=
  Text.solid_of_trim h.trimmed h.nonempty

/-- What documentation says, whatever its form. -/
structure Content where
  common : String
  input : SortedMap String Description
  output : SortedMap String Description
  common_trimmed : Text.trim common.toList = common.toList
  common_plain : ∀ line ∈ Text.pieces common.toList, ¬ isSectionHeader line
  input_names : ∀ name ∈ input.keys, IsItemName name
  output_names : ∀ name ∈ output.keys, IsItemName name

/-- A parameter with its description. -/
abbrev Item := String × Description

namespace Item

/-- The bullet, the name, and the first line of the description. -/
def bullet (i : Item) : List Char := '-' :: (" ".toList ++ i.1.toList ++ " - ".toList) ++ i.2.first

/-- The lines of an item. -/
def lines (i : Item) : List (List Char) := indent 2 i.bullet :: i.2.further.map (indent 6)

end Item

namespace Content

/-- The lines of the common part; an empty one has none. -/
def commonLines (c : Content) : List (List Char) :=
  if c.common.isEmpty then [] else Text.pieces c.common.toList

/-- The headers, with the items of the sections in some order. -/
def sectionLines (ins outs : List Item) : List (List Char) :=
  "in:".toList :: (ins.flatMap Item.lines ++ "out:".toList :: outs.flatMap Item.lines)

/-- The lines of the documentation. -/
def lines (c : Content) (ins outs : List Item) : List (List Char) :=
  c.commonLines ++ sectionLines ins outs

end Content

section Items

variable {i : Item} {is : List Item}

theorem Item.solid_bullet (i : Item) : Text.Solid i.bullet := by
  have hdash : Text.Solid ['-'] :=
    Text.solid_of_all (List.cons_ne_nil _ _) (by decide)
  exact hdash.append (" ".toList ++ i.1.toList ++ " - ".toList) i.2.first_isLine.solid

theorem Item.newline_notMem_bullet (hname : IsItemName i.1) : '\n' ∉ i.bullet := by
  simp [Item.bullet, hname.single, i.2.first_isLine.single]

/-- Whatever the first line of a description is, a dash stands before it. -/
theorem Item.not_isSectionHeader_bullet (i : Item) : ¬ isSectionHeader i.bullet := by
  have hdash : '-' ∈ " ".toList ++ i.1.toList ++ " - ".toList := by simp
  have hfirst := i.2.first_isLine.nonempty
  rw [isSectionHeader, Bool.or_eq_true, not_or]
  exact ⟨not_isHeader_of_dash i.solid_bullet hfirst hdash (by decide),
    not_isHeader_of_dash i.solid_bullet hfirst hdash (by decide)⟩

theorem Item.exists_indented {line : List Char} (h : line ∈ i.lines) : ∃ n, Indented n line := by
  rcases List.mem_cons.mp h with rfl | h
  · exact ⟨2, _, rfl, i.solid_bullet⟩
  · obtain ⟨further, hfurther, rfl⟩ := List.mem_map.mp h
    exact ⟨6, _, rfl, (i.2.further_isLine further hfurther).solid⟩

theorem Item.newline_notMem {line : List Char} (hname : IsItemName i.1) (h : line ∈ i.lines) :
    '\n' ∉ line := by
  rcases List.mem_cons.mp h with rfl | h
  · rw [newline_mem_indent]
    exact Item.newline_notMem_bullet hname
  · obtain ⟨further, hfurther, rfl⟩ := List.mem_map.mp h
    rw [newline_mem_indent]
    exact (i.2.further_isLine further hfurther).single

/-- No line of an item can be taken for a header. -/
theorem Item.not_isSectionHeader {line : List Char} (h : line ∈ i.lines) :
    ¬ isSectionHeader line := by
  rcases List.mem_cons.mp h with rfl | h
  · rw [isSectionHeader_indent]
    exact i.not_isSectionHeader_bullet
  · obtain ⟨further, hfurther, rfl⟩ := List.mem_map.mp h
    rw [isSectionHeader_indent]
    exact i.2.not_isSectionHeader further hfurther

/-! ## Reading items -/

theorem cutItem_append {offset : Nat} {before after : List (List Char)}
    (hbefore : ∀ l ∈ before, offset < indentation l)
    (hafter : ∀ l ∈ after.head?, ¬ offset < indentation l) :
    cutItem offset (before ++ after) = (before, after) := by
  have hbefore' : ∀ l ∈ before, decide (offset < indentation l) :=
    fun l hl => decide_eq_true (hbefore l hl)
  rw [cutItem, List.takeWhile_append_of_pos hbefore', List.dropWhile_append_of_pos hbefore']
  cases after with
  | nil => simp
  | cons l after => simp [hafter l rfl]

/-- Each item is cut off in front of the next bullet. -/
theorem itemsOf_flatMap_lines (is : List Item) :
    itemsOf (is.flatMap Item.lines) = is.map fun i => (i.bullet, i.2.further) := by
  induction is with
  | nil => simp [itemsOf]
  | cons i is ih =>
      have hindent : indentation (indent 2 i.bullet) = 2 :=
        Indented.indentation_eq ⟨_, rfl, i.solid_bullet⟩
      have hfurther : ∀ l ∈ i.2.further.map (indent 6), 2 < indentation l := by
        intro l hl
        obtain ⟨further, hmem, rfl⟩ := List.mem_map.mp hl
        have hsix : indentation (indent 6 further) = 6 :=
          Indented.indentation_eq ⟨_, rfl, (i.2.further_isLine further hmem).solid⟩
        omega
      -- what follows is the bullet of the next item, if anything
      have hnext : ∀ l ∈ (is.flatMap Item.lines).head?, ¬ 2 < indentation l := by
        cases is with
        | nil => simp
        | cons j is =>
            intro l hl
            obtain rfl : indent 2 j.bullet = l := by simpa [Item.lines] using hl
            rw [Indented.indentation_eq ⟨_, rfl, j.solid_bullet⟩]
            exact Nat.lt_irrefl 2
      have htrim : (i.2.further.map (indent 6)).map Text.trim = i.2.further := by
        have hline : ∀ l ∈ i.2.further, (Text.trim ∘ indent 6) l = id l :=
          fun l hl => trim_indent (i.2.further_isLine l hl).solid
        rw [List.map_map, List.map_congr_left hline, List.map_id]
      rw [List.flatMap_cons, Item.lines, List.cons_append, itemsOf, hindent,
        cutItem_append hfurther hnext, ih, trim_indent i.solid_bullet, htrim]
      rfl

/-- An item is read as its name with its description. -/
theorem entry?_item (hname : IsItemName i.1) :
    entry? (i.bullet, i.2.further) = some (i.1, i.2.text) := by
  have hblank : Text.isBlankText [' '] := by decide
  have hnil : Text.isBlankText [] := rfl
  have hfirst := i.2.first_isLine
  have hbody : dropBullet? i.bullet = some (i.1.toList ++ [' '] ++ '-' :: (' ' :: i.2.first)) := by
    have hsolid : Text.Solid (i.1.toList ++ (" - ".toList ++ i.2.first)) :=
      hname.solid.append _ hfirst.solid
    have htrim := hsolid.trim_append hblank hnil
    rw [Item.bullet, List.cons_append, dropBullet?, if_pos (.inl rfl)]
    simpa using htrim
  have hbefore : ∀ c ∈ i.1.toList ++ [' '], ¬ isSeparator c := by
    intro c hc
    rcases List.mem_append.mp hc with hc | hc
    · exact hname.unseparated c hc
    · rw [List.mem_singleton.mp hc]
      decide
  have hread : Text.trim (i.1.toList ++ [' ']) = i.1.toList := by
    simpa using hname.solid.trim_append hnil hblank
  have hrest : Text.trim (' ' :: i.2.first) = i.2.first := by
    simpa using hfirst.solid.trim_append hblank hnil
  unfold entry?
  simp only [hbody, Text.splitWhere?_append hbefore (c := '-') (by decide)]
  simp [hread, hrest, hname.nonempty, hfirst.nonempty, Description.text]

/-- The items of a section are read as what they were written for. -/
theorem entries_flatMap_lines (h : ∀ i ∈ is, IsItemName i.1) :
    entries (is.flatMap Item.lines) = .ofList (is.map fun i => (i.1, i.2.text)) := by
  have hvisible : (is.flatMap Item.lines).filter (!Text.isBlankText ·) = is.flatMap Item.lines := by
    rw [List.filter_eq_self]
    intro l hl
    obtain ⟨i, -, hline⟩ := List.mem_flatMap.mp hl
    obtain ⟨n, hindented⟩ := Item.exists_indented hline
    simpa using hindented.not_isBlankText
  have hread : (is.map fun i => (i.bullet, i.2.further)).filterMap entry? =
      is.map fun i => (i.1, i.2.text) := by
    rw [List.filterMap_map, ← List.filterMap_eq_map]
    refine List.filterMap_congr fun i hi => ?_
    rw [Function.comp_apply, entry?_item (h i hi), Function.comp_apply]
  rw [entries, items, hvisible, itemsOf_flatMap_lines, hread]

end Items

/-! ## Reading the sections -/

/-- A section begins at the first line that is a header of it. -/
theorem cutAt_append {p : List Char → Bool} {before after : List (List Char)} {header : List Char}
    (hbefore : ∀ l ∈ before, ¬ p l) (hheader : p header) :
    cutAt p (before ++ header :: after) = (before, after) := by
  have hbefore' : ∀ l ∈ before, !p l := by simpa using hbefore
  rw [cutAt, List.takeWhile_append_of_pos hbefore', List.dropWhile_append_of_pos hbefore']
  simp [hheader]

theorem dropWhile_dropLast {α : Type} {p : α → Bool} {before after : List α} {x : α}
    (hbefore : ∀ y ∈ before, p y) (hx : ¬ p x) :
    (before ++ x :: after).dropLast.dropWhile p ++ (before ++ x :: after).getLast?.toList =
      x :: after := by
  rcases List.eq_nil_or_concat' after with rfl | ⟨middle, y, rfl⟩
  · have hnone : before.dropWhile p = [] := List.dropWhile_eq_nil_iff.mpr hbefore
    rw [List.dropLast_concat, hnone, List.getLast?_concat]
    rfl
  · have hshape : before ++ x :: (middle ++ [y]) = before ++ x :: middle ++ [y] := by simp
    rw [hshape, List.dropLast_concat, List.dropWhile_append_of_pos hbefore,
      List.dropWhile_cons_of_neg hx, List.getLast?_concat]
    rfl

/-- Blank lines behind others are blanks behind a text. -/
theorem exists_join_append {ls after : List (List Char)} (hls : ls ≠ [])
    (hafter : ∀ l ∈ after, Text.isBlankText l) :
    ∃ tail, Text.join ['\n'] (ls ++ after) = Text.join ['\n'] ls ++ tail ∧
      Text.isBlankText tail := by
  by_cases hnone : after = []
  · exact ⟨[], by simp [hnone], rfl⟩
  · refine ⟨'\n' :: Text.join ['\n'] after, Text.join_append hls hnone, ?_⟩
    rw [Text.isBlankText, List.all_cons, Bool.and_eq_true]
    exact ⟨by decide, Text.isBlankText_join_iff.mpr hafter⟩

/-- Blank lines on either side are no part of the text. -/
theorem body_append {before ls after : List (List Char)}
    (hbefore : ∀ l ∈ before, Text.isBlankText l) (hafter : ∀ l ∈ after, Text.isBlankText l)
    (hls : ls ≠ []) (hsolid : Text.Solid (Text.join ['\n'] ls)) :
    body (Text.join ['\n'] (before ++ ls ++ after)) = Text.join ['\n'] ls := by
  obtain ⟨tail, htail, hblank⟩ := exists_join_append hls hafter
  have hpieces : Text.pieces (Text.join ['\n'] (before ++ ls ++ after)) =
      before.flatMap Text.pieces ++ Text.pieces (Text.join ['\n'] ls ++ tail) := by
    have hrest : ls ++ after ≠ [] := List.append_ne_nil_of_left_ne_nil hls after
    rw [List.append_assoc, Text.pieces_join (List.append_ne_nil_of_right_ne_nil before hrest),
      List.flatMap_append, ← htail, Text.pieces_join hrest]
  have hskipped : ∀ p ∈ before.flatMap Text.pieces, Text.isBlankText p := by
    intro p hp
    obtain ⟨l, hl, hpiece⟩ := List.mem_flatMap.mp hp
    exact Text.isBlankText_of_mem_pieces (hbefore l hl) hpiece
  obtain ⟨p, ps, hfirst, hvisible⟩ := hsolid.exists_pieces_append tail
  rw [body, hpieces, hfirst, dropWhile_dropLast hskipped hvisible, ← hfirst, Text.join_pieces]
  exact hsolid.trimEnd_append hblank []

/-- The entries of a section are the map they come from, in whatever order they stand. -/
theorem entries_of_perm {is : List Item} {m : SortedMap String Description}
    (hnames : ∀ name ∈ m.keys, IsItemName name) (h : is.Perm m.entries) :
    entries (is.flatMap Item.lines) = m.mapValues Description.text := by
  have his : ∀ i ∈ is, IsItemName i.1 := fun i hi =>
    hnames i.1 (List.mem_map.mpr ⟨i, h.mem_iff.mp hi, rfl⟩)
  have hnodup : (is.map (·.1)).Nodup := (h.map _).nodup_iff.mpr m.nodup_keys
  rw [entries_flatMap_lines his, ← SortedMap.mapValues_ofList, SortedMap.ofList_perm hnodup h,
    SortedMap.ofList_entries]

namespace Content

variable {c : Content} {ins outs : List Item}

theorem join_commonLines (c : Content) : Text.join ['\n'] c.commonLines = c.common.toList := by
  rw [commonLines]
  split
  · rename_i hempty
    rw [String.isEmpty_iff.mp hempty]
    rfl
  · exact Text.join_pieces _

theorem mem_pieces_of_mem_commonLines {l : List Char} (h : l ∈ c.commonLines) :
    l ∈ Text.pieces c.common.toList := by
  rw [commonLines] at h
  split at h
  · cases h
  · exact h

theorem exists_of_mem_sectionLines {l : List Char} (h : l ∈ sectionLines ins outs) :
    l = "in:".toList ∨ l = "out:".toList ∨ ∃ i ∈ ins ++ outs, l ∈ i.lines := by
  rw [sectionLines, List.mem_cons, List.mem_append, List.mem_cons] at h
  rcases h with h | h | h | h
  · exact .inl h
  · obtain ⟨i, hi, hl⟩ := List.mem_flatMap.mp h
    exact .inr (.inr ⟨i, List.mem_append_left outs hi, hl⟩)
  · exact .inr (.inl h)
  · obtain ⟨i, hi, hl⟩ := List.mem_flatMap.mp h
    exact .inr (.inr ⟨i, List.mem_append_right ins hi, hl⟩)

theorem solid_join_sectionLines (ins outs : List Item) :
    Text.Solid (Text.join ['\n'] (sectionLines ins outs)) := by
  have hin : Indented 0 "in:".toList :=
    ⟨"in:".toList, rfl, Text.solid_of_all (by decide) (by decide)⟩
  have hout : Indented 0 "out:".toList :=
    ⟨"out:".toList, rfl, Text.solid_of_all (by decide) (by decide)⟩
  have hlines : ∀ l ∈ sectionLines ins outs, ∃ n, Indented n l := by
    intro l hl
    rcases exists_of_mem_sectionLines hl with rfl | rfl | ⟨i, -, hline⟩
    · exact ⟨0, hin⟩
    · exact ⟨0, hout⟩
    · exact Item.exists_indented hline
  obtain ⟨cs, hjoin, hsolid⟩ := hin.join (List.forall_mem_cons.mp hlines).2
  rw [sectionLines, hjoin]
  exact hsolid

/-- The text begins and ends with something visible, so nothing of it is trimmed. -/
theorem solid_join_lines (c : Content) (ins outs : List Item) :
    Text.Solid (Text.join ['\n'] (c.lines ins outs)) := by
  have hsections := solid_join_sectionLines ins outs
  rw [lines]
  by_cases hnone : c.commonLines = []
  · rwa [hnone, List.nil_append]
  · have hcommon : c.common.toList ≠ [] := by
      intro hempty
      refine hnone (if_pos ?_)
      rw [String.isEmpty_iff, ← String.toList_eq_nil_iff, hempty]
    have hheader : sectionLines ins outs ≠ [] := List.cons_ne_nil _ _
    rw [Text.join_append hnone hheader, join_commonLines]
    exact (Text.solid_of_trim c.common_trimmed hcommon).append ['\n'] hsections

theorem newline_notMem_lines (hnames : ∀ i ∈ ins ++ outs, IsItemName i.1) :
    ∀ l ∈ c.lines ins outs, '\n' ∉ l := by
  intro l hl
  rcases List.mem_append.mp hl with hl | hl
  · exact Text.notMem_of_mem_pieces (mem_pieces_of_mem_commonLines hl)
  · rcases exists_of_mem_sectionLines hl with rfl | rfl | ⟨i, hi, hline⟩
    · decide
    · decide
    · exact Item.newline_notMem (hnames i hi) hline

/-- The header of the output section is the first that is found. -/
theorem cutAt_lines (c : Content) (ins outs : List Item) :
    cutAt isOutputHeader (c.lines ins outs) =
      (c.commonLines ++ "in:".toList :: ins.flatMap Item.lines, outs.flatMap Item.lines) := by
  have hsplit : c.lines ins outs = c.commonLines ++ "in:".toList :: ins.flatMap Item.lines ++
      "out:".toList :: outs.flatMap Item.lines := by
    simp [lines, sectionLines]
  rw [hsplit]
  -- the common part, the other header and the items of the input stand above it
  refine cutAt_append (fun l hl houtput => ?_) (by decide)
  have hheader : isSectionHeader l := Bool.or_eq_true_iff.mpr (.inr houtput)
  rcases List.mem_append.mp hl with hl | hl
  · exact c.common_plain l (mem_pieces_of_mem_commonLines hl) hheader
  · rcases List.mem_cons.mp hl with rfl | hl
    · exact absurd houtput (by decide)
    · obtain ⟨i, -, hline⟩ := List.mem_flatMap.mp hl
      exact Item.not_isSectionHeader hline hheader

/-- That of the input section is the first above it. -/
theorem cutAt_above (c : Content) (ins : List Item) :
    cutAt isInputHeader (c.commonLines ++ "in:".toList :: ins.flatMap Item.lines) =
      (c.commonLines, ins.flatMap Item.lines) := by
  refine cutAt_append (fun l hl hinput => ?_) (by decide)
  exact c.common_plain l (mem_pieces_of_mem_commonLines hl) (Bool.or_eq_true_iff.mpr (.inl hinput))

end Content

/-- **Written documentation is read back**: the common part, and each section with its names and
descriptions, whatever the order of the items in a section, and whatever blank lines stand around
the documentation. -/
theorem split_lines (c : Content) {ins outs : List Item} (hins : ins.Perm c.input.entries)
    (houts : outs.Perm c.output.entries) {before after : List (List Char)}
    (hbefore : ∀ l ∈ before, Text.isBlankText l) (hafter : ∀ l ∈ after, Text.isBlankText l) :
    split (Text.join ['\n'] (before ++ c.lines ins outs ++ after)) =
      { raw := String.ofList (Text.join ['\n'] (c.lines ins outs))
        common := c.common
        input := c.input.mapValues Description.text
        output := c.output.mapValues Description.text } := by
  have hnonempty : c.lines ins outs ≠ [] := by simp [Content.lines, Content.sectionLines]
  have hnames : ∀ i ∈ ins ++ outs, IsItemName i.1 := by
    intro i hi
    rcases List.mem_append.mp hi with hi | hi
    · exact c.input_names i.1 (List.mem_map_of_mem (hins.mem_iff.mp hi))
    · exact c.output_names i.1 (List.mem_map_of_mem (houts.mem_iff.mp hi))
  have hpieces : Text.pieces (Text.join ['\n'] (c.lines ins outs)) = c.lines ins outs :=
    Text.pieces_join_lines (Content.newline_notMem_lines hnames) hnonempty
  rw [split, body_append hbefore hafter hnonempty (c.solid_join_lines ins outs), hpieces,
    c.cutAt_lines]
  dsimp only
  rw [c.cutAt_above, entries_of_perm c.output_names houts]
  dsimp only
  rw [entries_of_perm c.input_names hins, c.join_commonLines, c.common_trimmed,
    String.ofList_toList]

/-- A parameter that is called like a header, and descriptions that look like headers and items. -/
def sampleContent : Content where
  common := "Finds users.\n  - in - the order of their ids"
  input := ⟨[("in", ⟨"out:".toList, ["- name - or alias".toList, "* in".toList],
      by decide +kernel, by decide +kernel, by decide +kernel⟩),
    ("p id", ⟨"not NULL".toList, [], by decide +kernel, by decide +kernel, by decide +kernel⟩)],
    by decide +kernel⟩
  output := ⟨[("return", ⟨": rows".toList, [], by decide +kernel, by decide +kernel,
    by decide +kernel⟩)], by decide +kernel⟩
  common_trimmed := by decide +kernel
  common_plain := by decide +kernel
  input_names := by decide +kernel
  output_names := by decide +kernel

/-- The same, with the later parameter first. -/
def sampleText : String :=
  "\n  \nFinds users.\n  - in - the order of their ids\nin:\n  - p id - not NULL\n" ++
    "  - in - out:\n      - name - or alias\n      * in\nout:\n  - return - : rows\n"

theorem split_lines_sample :
    (split sampleText.toList).common = "Finds users.\n  - in - the order of their ids" ∧
      (split sampleText.toList).input.entries =
        [("in", "out:\n- name - or alias\n* in"), ("p id", "not NULL")] ∧
      (split sampleText.toList).output.entries = [("return", ": rows")] := by
  have htext : sampleText.toList = Text.join ['\n'] ([[], "  ".toList] ++
      sampleContent.lines sampleContent.input.entries.reverse sampleContent.output.entries ++
        [[]]) := by decide +kernel
  rw [htext, split_lines sampleContent (List.reverse_perm _) (.refl _) (by decide) (by decide)]
  exact ⟨rfl, by decide +kernel, by decide +kernel⟩

end RoutineBridge.Sections
