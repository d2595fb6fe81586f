/-!
# Lines and pieces of a text

A line ends at a line feed, and a carriage return right in front of that line feed goes with it.
What follows the last line feed is a line of its own unless it is empty.
-/

namespace RoutineBridge.Text

/-- The pieces of a text between its line feeds; a text without one is a single piece. -/
def pieces : List Char → List (List Char)
  | [] => [[]]
  | c :: cs =>
    if c = '\n' then [] :: pieces cs
    else
      match pieces cs with
      | [] => [[c]]
      | p :: ps => (c :: p) :: ps

theorem pieces_ne_nil (cs : List Char) : pieces cs ≠ [] := by
  fun_cases pieces cs <;> simp

/-- A line without the carriage return that stood before its line feed. -/
def dropReturn (line : List Char) : List Char :=
  if line.getLast? = some '\r' then line.dropLast else line

def lines (cs : List Char) : List (List Char) :=
  (pieces cs).dropLast.map dropReturn ++ (pieces cs).getLast?.toList.filter (!·.isEmpty)

/-- Joins texts with a separator between them. -/
def join (sep : List Char) : List (List Char) → List Char
  | [] => []
  | [p] => p
  | p :: q :: ps => p ++ sep ++ join sep (q :: ps)

/-- The text before and after the first place where `sep` stands. -/
def splitAt? (sep : List Char) : List Char → Option (List Char × List Char)
  | [] => if sep.isEmpty then some ([], []) else none
  | c :: cs =>
    if sep.isPrefixOf (c :: cs) then some ([], (c :: cs).drop sep.length)
    else (splitAt? sep cs).map fun (before, after) => (c :: before, after)

/-- The text before and after the first character of a class. -/
def splitWhere? (p : Char → Bool) : List Char → Option (List Char × List Char)
  | [] => none
  | c :: cs =>
    if p c then some ([], cs)
    else (splitWhere? p cs).map fun (before, after) => (c :: before, after)

theorem pieces_append_cons (before after : List Char) :
    pieces (before ++ '\n' :: after) = pieces before ++ pieces after := by
  induction before with
  | nil => rfl
  | cons c cs ih =>
      rw [List.cons_append, pieces, pieces, ih]
      split
      · rfl
      · cases hpieces : pieces cs with
        | nil => exact absurd hpieces (pieces_ne_nil cs)
        | cons p ps => rfl

theorem join_cons {sep p : List Char} {ps : List (List Char)} (h : ps ≠ []) :
    join sep (p :: ps) = p ++ (sep ++ join sep ps) := by
  cases ps with
  | nil => exact absurd rfl h
  | cons q ps => rw [join, List.append_assoc]

theorem join_append {sep : List Char} {ps qs : List (List Char)} (hps : ps ≠ []) (hqs : qs ≠ []) :
    join sep (ps ++ qs) = join sep ps ++ (sep ++ join sep qs) := by
  induction ps with
  | nil => exact absurd rfl hps
  | cons p ps ih =>
      by_cases hlast : ps = []
      · subst hlast
        exact join_cons hqs
      · rw [List.cons_append, join_cons (List.append_ne_nil_of_left_ne_nil hlast qs), ih hlast,
          join_cons hlast]
        simp only [List.append_assoc]

/-- The pieces of joined texts are those of the single texts. -/
theorem pieces_join {ps : List (List Char)} (h : ps ≠ []) :
    pieces (join ['\n'] ps) = ps.flatMap pieces := by
  induction ps with
  | nil => exact absurd rfl h
  | cons p ps ih =>
      by_cases hlast : ps = []
      · subst hlast
        simp [join]
      · rw [join_cons hlast, List.singleton_append, pieces_append_cons, ih hlast, List.flatMap_cons]

/-- Joined by line feeds, the pieces are the text. -/
theorem join_pieces (cs : List Char) : join ['\n'] (pieces cs) = cs := by
  induction cs with
  | nil => rfl
  | cons c cs ih =>
      rw [pieces]
      split
      · rename_i hc
        rw [join_cons (pieces_ne_nil cs), ih, hc]
        rfl
      · cases hpieces : pieces cs with
        | nil => exact absurd hpieces (pieces_ne_nil cs)
        | cons p ps =>
            rw [hpieces] at ih
            cases ps with
            | nil => exact congrArg (c :: ·) ih
            | cons q ps => exact congrArg (c :: ·) ih

theorem pieces_eq_singleton {cs : List Char} (h : '\n' ∉ cs) : pieces cs = [cs] := by
  induction cs with
  | nil => rfl
  | cons c cs ih =>
      rw [List.mem_cons, not_or] at h
      rw [pieces, if_neg (Ne.symm h.1), ih h.2]

/-- Joined lines are split where they were joined. -/
theorem pieces_join_lines {ls : List (List Char)} (h : ∀ l ∈ ls, '\n' ∉ l) (hnonempty : ls ≠ []) :
    pieces (join ['\n'] ls) = ls := by
  have hsingle : ∀ l ∈ ls, pieces l = [l] := fun l hl => pieces_eq_singleton (h l hl)
  rw [pieces_join hnonempty, List.flatMap_def, List.map_congr_left hsingle, ← List.flatMap_def,
    List.flatMap_singleton']

theorem notMem_of_mem_pieces {cs p : List Char} (h : p ∈ pieces cs) : '\n' ∉ p := by
  fun_induction pieces cs generalizing p with
  | case1 =>
      obtain rfl := List.mem_singleton.mp h
      exact List.not_mem_nil
  | case2 cs ih =>
      rcases List.mem_cons.mp h with rfl | h
      · exact List.not_mem_nil
      · exact ih h
  | case3 c cs hc hnil => exact absurd hnil (pieces_ne_nil cs)
  | case4 c cs hc q qs hcons ih =>
      rw [hcons] at ih
      rcases List.mem_cons.mp h with rfl | h
      · exact List.not_mem_cons_of_ne_of_not_mem (Ne.symm hc) (ih List.mem_cons_self)
      · exact ih (List.mem_cons_of_mem _ h)

/-- No line holds a line feed. -/
theorem notMem_of_mem_lines {cs line : List Char} (h : line ∈ lines cs) : '\n' ∉ line := by
  rcases List.mem_append.mp h with h | h
  · obtain ⟨p, hp, rfl⟩ := List.mem_map.mp h
    have hpiece := notMem_of_mem_pieces (List.dropLast_subset _ hp)
    rw [dropReturn]
    split
    · exact fun hmem => hpiece (List.dropLast_subset _ hmem)
    · exact hpiece
  · have hlast := Option.mem_toList.mp (List.mem_filter.mp h).1
    exact notMem_of_mem_pieces (List.mem_of_getLast? hlast)

theorem eq_of_splitAt? {sep cs before after : List Char}
    (h : splitAt? sep cs = some (before, after)) : cs = before ++ (sep ++ after) := by
  induction cs generalizing before after with
  | nil =>
      simp only [splitAt?] at h
      split at h
      · rename_i hsep
        cases h
        simp [List.isEmpty_iff.1 hsep]
      · cases h
  | cons c cs ih =>
      simp only [splitAt?] at h
      split at h
      · rename_i hpre
        cases h
        obtain ⟨t, ht⟩ := List.isPrefixOf_iff_prefix.1 hpre
        rw [← ht]
        simp
      · simp only [Option.map_eq_some_iff, Prod.mk.injEq, Prod.exists] at h
        obtain ⟨b, a, hba, rfl, rfl⟩ := h
        rw [ih hba]
        rfl

theorem eq_of_splitWhere? {p : Char → Bool} {cs before after : List Char}
    (h : splitWhere? p cs = some (before, after)) :
    ∃ c, p c = true ∧ cs = before ++ c :: after := by
  induction cs generalizing before after with
  | nil => simp [splitWhere?] at h
  | cons c cs ih =>
      simp only [splitWhere?] at h
      split at h
      · rename_i hc
        cases h
        exact ⟨c, hc, rfl⟩
      · simp only [Option.map_eq_some_iff, Prod.mk.injEq, Prod.exists] at h
        obtain ⟨b, a, hba, rfl, rfl⟩ := h
        obtain ⟨d, hd, rfl⟩ := ih hba
        exact ⟨d, hd, rfl⟩

/-- The separator does not stand before the place that is found. -/
theorem not_infix_of_splitAt? {sep cs before after : List Char} (hsep : sep ≠ [])
    (h : splitAt? sep cs = some (before, after)) : ¬ sep <:+: before := by
  induction cs generalizing before after with
  | nil =>
      rw [splitAt?, if_neg (by simpa using hsep)] at h
      cases h
  | cons c cs ih =>
      rw [splitAt?] at h
      split at h
      · cases h
        simpa using hsep
      · rename_i hpre
        simp only [Option.map_eq_some_iff, Prod.mk.injEq, Prod.exists] at h
        obtain ⟨b, a, hba, rfl, rfl⟩ := h
        rw [List.infix_cons_iff, not_or]
        refine ⟨fun hstart => hpre ?_, ih hba⟩
        rw [eq_of_splitAt? hba, List.isPrefixOf_iff_prefix]
        exact hstart.trans (List.prefix_append (c :: b) (sep ++ a))

theorem splitAt?_eq_none_iff {sep cs : List Char} (hsep : sep ≠ []) :
    splitAt? sep cs = none ↔ ¬ sep <:+: cs := by
  induction cs with
  | nil => simp [splitAt?, hsep]
  | cons c cs ih =>
      rw [splitAt?, List.infix_cons_iff, not_or, ← ih, ← List.isPrefixOf_iff_prefix]
      split
      · rename_i hpre
        simp [hpre]
      · rename_i hpre
        simp [hpre]

theorem splitWhere?_eq_none_iff {p : Char → Bool} {cs : List Char} :
    splitWhere? p cs = none ↔ ∀ c ∈ cs, ¬ p c := by
  induction cs with
  | nil => simp [splitWhere?]
  | cons c cs ih =>
      rw [splitWhere?, List.forall_mem_cons, ← ih]
      split
      · rename_i hc
        simp [hc]
      · rename_i hc
        simp [hc]

/-- A character of the class is found behind a text without such characters. -/
theorem splitWhere?_append {p : Char → Bool} {before : List Char} {c : Char}
    (hbefore : ∀ d ∈ before, ¬ p d) (hc : p c) (after : List Char) :
    splitWhere? p (before ++ c :: after) = some (before, after) := by
  induction before with
  | nil => rw [List.nil_append, splitWhere?, if_pos hc]
  | cons d before ih =>
      obtain ⟨hd, hrest⟩ := List.forall_mem_cons.mp hbefore
      rw [List.cons_append, splitWhere?, if_neg hd, ih hrest]
      rfl

/-- A separator is found behind a text in which its first character does not stand. -/
theorem splitAt?_append {c : Char} {sep before : List Char} (h : c ∉ before) (after : List Char) :
    splitAt? (c :: sep) (before ++ (c :: sep ++ after)) = some (before, after) := by
  induction before with
  | nil => simp [splitAt?]
  | cons d before ih =>
      rw [List.mem_cons, not_or] at h
      have hstart : ¬ (c :: sep).isPrefixOf (d :: (before ++ (c :: sep ++ after))) := by
        simp [h.1]
      rw [List.cons_append, splitAt?, if_neg hstart, ih h.2]
      rfl

/-- A text without line feeds is a single line. -/
theorem lines_eq_singleton {cs : List Char} (h : '\n' ∉ cs) (hnonempty : cs ≠ []) :
    lines cs = [cs] := by
  rw [lines, pieces_eq_singleton h]
  simpa using hnonempty

end RoutineBridge.Text
