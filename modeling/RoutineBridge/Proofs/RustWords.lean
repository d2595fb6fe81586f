import RoutineBridge.Proofs.Documentation

/-!
# The words of the wrapper

What Rust takes for an identifier, and where the wrapper writes one. Lines that declare something or
make a call start with marks of their own; what follows such a mark is cut at the characters that
separate words, and what is left are identifiers, but for lifetimes and the word that makes a
reference mutable (`Rust.words`). A line is read for itself and a separator ends what stands in
front of it, so the words of a source are those of its parts (`Piece.words_flatMap_render`), and
those of a part are the names it is made with among some that are always there
(`Wrapper.reads_pieces`).
-/

namespace RoutineBridge

namespace Rust

/-! ## Identifiers -/

/-- The words that Rust keeps to itself, in any edition. -/
def reserved : List (List Char) :=
  ["abstract", "as", "async", "await", "become", "box", "break", "const", "continue", "crate",
    "do", "dyn", "else", "enum", "extern", "false", "final", "fn", "for", "gen", "if", "impl", "in",
    "let", "loop", "macro", "match", "mod", "move", "mut", "override", "priv", "pub", "ref",
    "return", "self", "Self", "static", "struct", "super", "trait", "true", "try", "type",
    "typeof", "unsafe", "unsized", "use", "virtual", "where", "while", "yield"].map String.toList

/-- The reserved words that cannot be written raw either. -/
def neverRaw : List (List Char) := ["crate", "self", "super", "Self"].map String.toList

/-- Letters, digits and underscores, the first of which is no digit, and more than an underscore. -/
def isIdentifier (w : List Char) : Bool :=
  w.head?.any (fun c => c.isAlpha || c == '_') && w.all (fun c => c.isAlphanum || c == '_') &&
    w != ['_']

/-- An identifier that is not reserved, or a raw one that can be written so. -/
def isLegal : List Char → Bool
  | 'r' :: '#' :: w => isIdentifier w && !neverRaw.contains w
  | w => isIdentifier w && !reserved.contains w

/-! ## Words -/

/-- The characters between words. -/
def isSeparator (c : Char) : Bool :=
  ['\n', ' ', ',', ':', ';', '.', '<', '>', '(', ')', '[', ']', '\x7b', '\x7d', '&', '=', '-', '|',
    '?', '\x27'].contains c

/-- What stands between separators, each piece with the separator in front of it. -/
def chop (before : Char) : List Char → List (Char × List Char)
  | [] => [(before, [])]
  | c :: cs =>
    if isSeparator c then (before, []) :: chop c cs
    else
      match chop before cs with
      | [] => [(before, [c])]
      | (b, w) :: rest => (b, c :: w) :: rest

/-- The piece is an identifier by its place: something is there, it is no lifetime, and it does not
make a reference mutable. -/
def isName (piece : Char × List Char) : Bool :=
  !piece.2.isEmpty && piece.1 != '\x27' && !(piece.1 == '&' && piece.2 == ['m', 'u', 't'])

/-- The identifiers of a text behind a character. -/
def names (before : Char) (cs : List Char) : List (List Char) :=
  ((chop before cs).filter isName).map (·.2)

/-- What lines with identifiers start with. -/
inductive Mark where
  | struct
  | field
  | static
  | function
  | enum
  | trait
  | synonym
  | call
  | stream
  | request
  | response
deriving DecidableEq

namespace Mark

def all : List Mark :=
  [struct, field, static, function, enum, trait, synonym, call, stream, request, response]

def text : Mark → String
  | struct => "pub struct "
  | field => "    pub "
  | static => "pub static "
  | function => "pub fn "
  | enum => "pub enum "
  | trait => "pub trait "
  | synonym => "pub type "
  | call => "    session.call(&"
  | stream => "    session.call_stream(&"
  | request => "        let request: "
  | response => "        let response = "

/-- The mark that a line starts with. -/
def of? (line : List Char) : Option Mark := all.find? (·.text.toList.isPrefixOf line)

end Mark

/-- The identifiers of a line. -/
def lineWords (line : List Char) : List (List Char) :=
  match Mark.of? line with
  | some m => names ' ' (line.drop m.text.toList.length)
  | none => []

/-- The identifiers of a source, line by line. -/
def words (text : List Char) : List (List Char) := (codeLines text).flatMap lineWords

/-! ### Cutting -/

theorem chop_ne_nil (before : Char) (cs : List Char) : chop before cs ≠ [] := by
  fun_cases chop before cs <;> simp

/-- A separator ends what stands in front of it. -/
theorem chop_append_cons {d : Char} (hd : isSeparator d) (before : Char) (xs cs : List Char) :
    chop before (xs ++ d :: cs) = chop before xs ++ chop d cs := by
  induction xs generalizing before with
  | nil => simp [chop, hd]
  | cons x xs ih =>
      rw [List.cons_append, chop, chop]
      split
      · rw [ih, List.cons_append]
      · rw [ih]
        cases hchop : chop before xs with
        | nil => exact absurd hchop (chop_ne_nil before xs)
        | cons piece rest => rfl

theorem names_append_cons {d : Char} (hd : isSeparator d) (before : Char) (xs cs : List Char) :
    names before (xs ++ d :: cs) = names before xs ++ names d cs := by
  rw [names, chop_append_cons hd, List.filter_append, List.map_append]
  rfl

/-- A text without separators, and not without characters. -/
structure IsWord (w : List Char) : Prop where
  nonempty : w ≠ []
  solid : ∀ c ∈ w, ¬ isSeparator c

theorem chop_of_isWord {w : List Char} (h : IsWord w) (before : Char) :
    chop before w = [(before, w)] := by
  obtain ⟨-, hsolid⟩ := h
  induction w with
  | nil => rfl
  | cons c w ih =>
      obtain ⟨hc, hw⟩ := List.forall_mem_cons.mp hsolid
      rw [chop, if_neg hc, ih hw]

/-- A word is an identifier wherever it is no lifetime and does not make a reference mutable. -/
theorem names_of_isWord {w : List Char} (h : IsWord w) {before : Char} (hquote : before ≠ '\x27')
    (hmut : before = '&' → w ≠ ['m', 'u', 't']) : names before w = [w] := by
  have hname : isName (before, w) := by
    simpa [isName, hquote, h.nonempty, ← imp_iff_not_or] using hmut
  rw [names, chop_of_isWord h, List.filter_cons_of_pos hname]
  rfl

theorem isWord_of_isIdentifier {w : List Char} (h : isIdentifier w) : IsWord w := by
  simp only [isIdentifier, Bool.and_eq_true, List.all_eq_true] at h
  refine ⟨?_, fun c hc => ?_⟩
  · rintro rfl
    cases h.1.1
  · rcases Bool.or_eq_true_iff.mp (h.1.2 c hc) with halnum | hunderscore
    · exact Text.of_isAlphanum (p := fun c => c.isAlphanum → ¬ isSeparator c) (by decide) halnum
        halnum
    · rw [beq_iff_eq.mp hunderscore]
      decide

/-- No legal identifier could be cut, and none makes a reference mutable. -/
theorem isWord_of_isLegal {w : List Char} (h : isLegal w) : IsWord w ∧ w ≠ ['m', 'u', 't'] := by
  refine ⟨?_, fun hmut => absurd (hmut ▸ h) (by decide)⟩
  rw [isLegal.eq_def] at h
  split at h
  · have hword := isWord_of_isIdentifier (Bool.and_eq_true_iff.mp h).1
    refine ⟨List.cons_ne_nil _ _, fun c hc => ?_⟩
    simp only [List.mem_cons] at hc
    rcases hc with rfl | rfl | hc
    · decide
    · decide
    · exact hword.solid c hc
  · exact isWord_of_isIdentifier (Bool.and_eq_true_iff.mp h).1

/-- A legal identifier is one wherever it is no lifetime. -/
theorem names_of_isLegal {w : List Char} (h : isLegal w) {before : Char}
    (hquote : before ≠ '\x27') : names before w = [w] :=
  names_of_isWord (isWord_of_isLegal h).1 hquote fun _ => (isWord_of_isLegal h).2

theorem IsWord.newline_notMem {w : List Char} (h : IsWord w) : '\n' ∉ w :=
  fun hmem => h.solid _ hmem (by decide)

/-! ### Lines -/

namespace Mark

/-- Texts of which neither is the beginning of the other. -/
def Apart (s t : List Char) : Prop := ¬ s <+: t ∧ ¬ t <+: s

instance (s t : List Char) : Decidable (Apart s t) := inferInstanceAs (Decidable (_ ∧ _))

theorem Apart.not_isPrefixOf {s t : List Char} (h : Apart s t) (rest : List Char) :
    ¬ s.isPrefixOf (t ++ rest) := fun hprefix =>
  (List.prefix_or_prefix_of_prefix (List.isPrefixOf_iff_prefix.mp hprefix)
    (List.prefix_append t rest)).elim h.1 h.2

theorem mem_all (m : Mark) : m ∈ all := by
  cases m <;> decide

theorem apart : ∀ m ∈ all, ∀ k ∈ all, k ≠ m → Apart k.text.toList m.text.toList := by
  decide +kernel

/-- Whatever follows a mark, it is the one that is found. -/
theorem of?_text (m : Mark) (rest : List Char) : of? (m.text.toList ++ rest) = some m := by
  have hself : m.text.toList.isPrefixOf (m.text.toList ++ rest) :=
    List.isPrefixOf_iff_prefix.mpr (List.prefix_append _ _)
  obtain ⟨k, hk⟩ : ∃ k, of? (m.text.toList ++ rest) = some k :=
    Option.isSome_iff_exists.mp (List.find?_isSome.mpr ⟨m, m.mem_all, hself⟩)
  have hfound := List.find?_some hk
  by_cases hsame : k = m
  · rw [hk, hsame]
  · exact absurd hfound ((apart m m.mem_all k k.mem_all hsame).not_isPrefixOf rest)

/-- No mark is found in front of a text that is apart from all. -/
theorem of?_apart {start : List Char} (h : ∀ m ∈ all, Apart m.text.toList start)
    (rest : List Char) : of? (start ++ rest) = none :=
  List.find?_eq_none.mpr fun m hm => (h m hm).not_isPrefixOf rest

theorem newline_notMem_text : ∀ m ∈ all, '\n' ∉ m.text.toList := by
  decide +kernel

theorem isCommentLine_text (m : Mark) (rest : List Char) :
    isCommentLine (m.text.toList ++ rest) = false := by
  cases m <;> rfl

end Mark

theorem words_append_cons (before after : List Char) :
    words (before ++ '\n' :: after) = words before ++ words after := by
  rw [words, codeLines_append_cons, List.flatMap_append]
  rfl

theorem words_nil : words [] = [] := by
  decide

/-- A line that declares something or makes a call has the identifiers behind its mark. -/
theorem words_mark (m : Mark) {rest : List Char} (hrest : '\n' ∉ rest) :
    words (m.text.toList ++ rest) = names ' ' rest := by
  have hline : '\n' ∉ m.text.toList ++ rest := by
    simp [Mark.newline_notMem_text m m.mem_all, hrest]
  rw [words, codeLines, Text.pieces_eq_singleton hline, List.filter_cons_of_pos
    (by simp [m.isCommentLine_text]), List.filter_nil, List.flatMap_singleton, lineWords,
    m.of?_text]
  dsimp only
  rw [List.drop_left]

/-- A line has no more identifiers than stand behind its mark: none at all if it is a comment. -/
theorem words_subset {line : List Char} (hline : '\n' ∉ line) : words line ⊆ lineWords line := by
  rw [words, codeLines, Text.pieces_eq_singleton hline, List.filter_cons]
  split
  · rw [List.filter_nil, List.flatMap_singleton]
    exact List.Subset.refl _
  · exact List.nil_subset _

/-- A line without a mark has no identifiers. -/
theorem words_of_apart {start rest : List Char}
    (hstart : ∀ m ∈ Mark.all, Mark.Apart m.text.toList start) (hline : '\n' ∉ start ++ rest) :
    words (start ++ rest) = [] := by
  have hsubset := words_subset hline
  rw [lineWords, Mark.of?_apart hstart] at hsubset
  exact List.eq_nil_of_subset_nil hsubset

end Rust

open Rust

namespace Piece

/-- The identifiers of a part. -/
def words (p : Piece) : List (List Char) := Rust.words p.render

theorem words_doc {mark : String} (hmark : IsMark mark.toList) (s : String) :
    (doc mark s).words = [] := by
  have hcode := codeLines_commentLines hmark s.toList []
  rw [List.append_nil] at hcode
  rw [words, Rust.words, render, hcode]
  rfl

/-- **Parts are read one by one.** -/
theorem words_flatMap_render {ps : List Piece} (h : ∀ p ∈ ps, p.Whole) :
    Rust.words (ps.flatMap render) = ps.flatMap words := by
  induction ps with
  | nil => exact words_nil
  | cons p ps ih =>
      obtain ⟨hp, hps⟩ := List.forall_mem_cons.mp h
      rw [List.flatMap_cons, List.flatMap_cons, ← ih hps]
      cases p with
      | text s =>
          obtain ⟨line, hline⟩ := List.getLast?_eq_some_iff.mp hp
          rw [words, render, hline, List.append_assoc, List.singleton_append, words_append_cons,
            words_append_cons, words_nil, List.append_nil]
      | doc mark s =>
          rw [words_doc hp, List.nil_append, Rust.words, render, codeLines_commentLines hp]
          rfl

/-- Program text of a single line, or of one behind an empty line. -/
theorem words_text {s : String} {line : List Char}
    (h : s.toList = line ++ ['\n'] ∨ s.toList = '\n' :: (line ++ ['\n'])) :
    (text s).words = Rust.words line := by
  have hline : Rust.words (line ++ ['\n']) = Rust.words line := by
    rw [words_append_cons, words_nil, List.append_nil]
  rcases h with h | h
  · rw [words, render, h, hline]
  · rw [words, render, h, ← List.nil_append ('\n' :: _), words_append_cons, words_nil,
      List.nil_append, hline]

end Piece

/-! ### Texts without line feeds -/

theorem digitChar_ne_newline (n : Nat) : Nat.digitChar n ≠ '\n' := by
  grind [Nat.digitChar]

theorem newline_notMem_toDigits {base : Nat} (hbase : 1 < base) (n : Nat) :
    '\n' ∉ Nat.toDigits base n := by
  induction n using Nat.strong_induction_on with
  | _ n ih =>
    rw [Nat.toDigits_eq_if hbase]
    split
    · simp [(digitChar_ne_newline n).symm]
    · have hless : n / base < n := Nat.div_lt_self (by omega) hbase
      simp [ih _ hless, (digitChar_ne_newline (n % base)).symm]

theorem newline_notMem_toString (n : Nat) : '\n' ∉ (toString n).toList := by
  rw [Nat.toString_eq_ofList_toDigits, String.toList_ofList]
  exact newline_notMem_toDigits (by decide) n

/-- Between quotes a line feed is written by its letter. -/
theorem newline_notMem_quoted (s : String) : '\n' ∉ (Text.quoted s).toList := by
  have hescape : ∀ c, '\n' ∉ Text.escape '\x22' c := by
    intro c
    have hhex := newline_notMem_toDigits (by decide : 1 < 16) c.toNat
    grind [Text.escape, Text.hex]
  simp [Text.quoted, hescape]

/-- What stands in joined texts stands in one of them, or in what they are joined with. -/
theorem of_mem_intercalate {α : Type} {sep : List α} {ps : List (List α)} {a : α}
    (h : a ∈ List.intercalate sep ps) : a ∈ sep ∨ ∃ p ∈ ps, a ∈ p := by
  induction ps with
  | nil => cases h
  | cons p ps ih =>
      cases ps with
      | nil =>
          rw [List.intercalate_singleton] at h
          exact .inr ⟨p, List.mem_cons_self, h⟩
      | cons q qs =>
          rw [List.intercalate_cons_cons, List.append_assoc, List.mem_append, List.mem_append] at h
          rcases h with h | h | h
          · exact .inr ⟨p, List.mem_cons_self, h⟩
          · exact .inl h
          · exact (ih h).imp_right fun ⟨r, hr, ha⟩ => ⟨r, List.mem_cons_of_mem _ hr, ha⟩

namespace Wrapper

/-! ## The words of the parts -/

/-- The identifiers of the parts are these names and legal ones. -/
structure Reads (ps : List Piece) (declared : List String) : Prop where
  found : ∀ name ∈ declared, name.toList ∈ ps.flatMap Piece.words
  others : ∀ w ∈ ps.flatMap Piece.words, w ∈ declared.map String.toList ∨ isLegal w

/-- What follows a name ends it, stays on the line and has legal identifiers only. -/
structure Closes (d : Char) (tail : List Char) : Prop where
  separator : isSeparator d
  newline_notMem : '\n' ∉ d :: tail
  legal : ∀ w ∈ names d tail, isLegal w

instance (d : Char) (tail : List Char) : Decidable (Closes d tail) :=
  decidable_of_iff (isSeparator d ∧ '\n' ∉ d :: tail ∧ ∀ w ∈ names d tail, isLegal w)
    ⟨fun ⟨hd, hn, hl⟩ => ⟨hd, hn, hl⟩, fun ⟨hd, hn, hl⟩ => ⟨hd, hn, hl⟩⟩

/-- A text that closes a name may be followed by another one. -/
theorem Closes.append {d e : Char} {xs ys : List Char} (h : Closes d xs) (h' : Closes e ys) :
    Closes d (xs ++ e :: ys) where
  separator := h.separator
  newline_notMem := by
    rw [← List.cons_append, List.mem_append, not_or]
    exact ⟨h.newline_notMem, h'.newline_notMem⟩
  legal w hw := by
    rw [names_append_cons h'.separator, List.mem_append] at hw
    exact hw.elim (h.legal w) (h'.legal w)

/-- A legal name closes the one in front of it. -/
theorem closes_of_isLegal {d : Char} {w : List Char} (hd : isSeparator d ∧ d ≠ '\n' ∧ d ≠ '\x27')
    (h : isLegal w) : Closes d w where
  separator := hd.1
  newline_notMem :=
    List.not_mem_cons_of_ne_of_not_mem hd.2.1.symm (isWord_of_isLegal h).1.newline_notMem
  legal w' hw' := by
    rw [names_of_isLegal h hd.2.2] at hw'
    exact List.mem_singleton.mp hw' ▸ h

namespace Reads

variable {ps qs : List Piece} {ds es : List String}

theorem append (h : Reads ps ds) (h' : Reads qs es) : Reads (ps ++ qs) (ds ++ es) := by
  refine ⟨fun name hname => ?_, fun w hw => ?_⟩
  · rw [List.flatMap_append, List.mem_append]
    exact (List.mem_append.mp hname).imp (h.found name) (h'.found name)
  · rw [List.flatMap_append, List.mem_append] at hw
    rw [List.map_append, List.mem_append]
    rcases hw with hw | hw
    · exact (h.others w hw).imp_left .inl
    · exact (h'.others w hw).imp_left .inr

/-- Where a name stands, and how often, does not matter. -/
theorem congr (h : Reads ps ds) (hsame : ∀ name, name ∈ ds ↔ name ∈ es) : Reads ps es where
  found name hname := h.found name ((hsame name).mpr hname)
  others w hw := (h.others w hw).imp_left fun hmem => by
    obtain ⟨name, hname, rfl⟩ := List.mem_map.mp hmem
    exact List.mem_map_of_mem ((hsame name).mp hname)

theorem flatMap {α : Type} {f : α → List Piece} {g : α → List String} {xs : List α}
    (h : ∀ x ∈ xs, Reads (f x) (g x)) : Reads (xs.flatMap f) (xs.flatMap g) := by
  induction xs with
  | nil => exact ⟨by simp, by simp⟩
  | cons x xs ih =>
      obtain ⟨hx, hxs⟩ := List.forall_mem_cons.mp h
      exact hx.append (ih hxs)

/-- Parts without identifiers. -/
theorem of_none (h : ∀ p ∈ ps, p.words = []) : Reads ps [] := by
  have hnone : ps.flatMap Piece.words = [] := List.flatMap_eq_nil_iff.mpr h
  exact ⟨by simp, by simp [hnone]⟩

/-- Parts that are always the same, given by their characters. -/
theorem of_texts {css : List (List Char)}
    (hsame : List.Forall₂ (fun p cs => p = .text (String.ofList cs)) ps css)
    (hlegal : ∀ cs ∈ css, ∀ w ∈ words cs, isLegal w) : Reads ps [] := by
  refine ⟨by simp, fun w hw => .inr ?_⟩
  induction hsame with
  | nil => cases hw
  | cons hp _ ih =>
      obtain ⟨hcs, hcss⟩ := List.forall_mem_cons.mp hlegal
      rw [hp, List.flatMap_cons, List.mem_append, Piece.words, Piece.render,
        String.toList_ofList] at hw
      exact hw.elim (hcs w) (ih hcss)

/-- A line that has a name behind its mark. -/
theorem of_line (m : Mark) {text name : String} {d : Char} {tail : List Char}
    (htext : text.toList = m.text.toList ++ (name.toList ++ d :: tail) ++ ['\n'] ∨
      text.toList = '\n' :: (m.text.toList ++ (name.toList ++ d :: tail) ++ ['\n']))
    (hname : IsWord name.toList) (hcloses : Closes d tail) : Reads [.text text] [name] := by
  have hrest : '\n' ∉ name.toList ++ d :: tail := by
    rw [List.mem_append, not_or]
    exact ⟨hname.newline_notMem, hcloses.newline_notMem⟩
  have hwords : [Piece.text text].flatMap Piece.words = name.toList :: names d tail := by
    rw [List.flatMap_singleton, Piece.words_text htext, words_mark m hrest,
      names_append_cons hcloses.separator, names_of_isWord hname (by decide) (by simp),
      List.singleton_append]
  refine ⟨by simp [hwords], fun w hw => ?_⟩
  rw [hwords, List.mem_cons] at hw
  exact hw.imp (by simp) (hcloses.legal w)

/-- A line that is a name between two fixed texts. -/
theorem of_fixed (m : Mark) {front name rest : String} {d : Char} {cs : List Char}
    (hfront : front = m.text ∨ front.toList = '\n' :: m.text.toList)
    (hrest : rest = String.ofList (d :: cs)) (hend : cs.getLast? = some '\n')
    (hname : IsWord name.toList) (hcloses : Closes d cs.dropLast) :
    Reads [.text (front ++ name ++ rest)] [name] := by
  have hcs : cs = cs.dropLast ++ ['\n'] := by
    obtain ⟨line, rfl⟩ := List.getLast?_eq_some_iff.mp hend
    rw [List.dropLast_concat]
  have hlist : (front ++ name ++ rest).toList =
      front.toList ++ (name.toList ++ d :: (cs.dropLast ++ ['\n'])) := by
    rw [hrest, String.toList_append, String.toList_append, String.toList_ofList, List.append_assoc,
      ← hcs]
  refine .of_line m ?_ hname hcloses
  rw [hlist]
  rcases hfront with rfl | hfront
  · left
    simp only [List.append_assoc, List.cons_append]
  · right
    simp only [hfront, List.append_assoc, List.cons_append]

end Reads

/-- The type of a field refers to messages by legal names. -/
def Refers (shape : FieldShape) : Prop :=
  ∀ name key, shape.element = .message name key → isLegal name.toList

/-- The type of a field closes its name. -/
theorem closes_rustType {shape : FieldShape} (h : Refers shape) :
    Closes ':' (' ' :: ((rustType shape).toList ++ [','])) := by
  obtain ⟨repeated, element⟩ := shape
  have hbrackets : ∀ text : String, Closes '<' text.toList →
      Closes ':' (' ' ::
        ((if repeated then s!"Vec<{text}>" else s!"Option<{text}>").toList ++ [','])) := by
    intro text htext
    have hlast : Closes '>' [','] := by decide
    have hfirst : Closes ':' (' ' :: (if repeated then "Vec" else "Option").toList) := by
      cases repeated <;> decide
    have hlist : (if repeated then s!"Vec<{text}>" else s!"Option<{text}>").toList =
        (if repeated then "Vec" else "Option").toList ++ '<' :: (text.toList ++ ['>']) := by
      cases repeated <;> simp [toString, String.toList_append]
    have hall := hfirst.append (htext.append hlast)
    rw [hlist]
    simpa using hall
  have hfixed : ∀ text ∈
      ["String", "i32", "i64", "f64", "bool", "Vec<u8>", "chrono::NaiveDateTime"],
      Closes '<' text.toList := by
    decide +kernel
  cases element with
  | scalar wire type =>
      cases wire <;> exact hbrackets _ (hfixed _ (by simp))
  | message name key => exact hbrackets _ (closes_of_isLegal (by decide) (h name key rfl))

/-- Documentation behind an empty line. -/
theorem reads_doc (doc : String) : Reads [.text "\n", .doc "/// " doc] [] :=
  .of_none (List.forall_mem_cons.mpr ⟨by decide, List.forall_mem_singleton.mpr
    (Piece.words_doc (by decide) doc)⟩)

theorem reads_field {s : Slot} (hfield : IsWord (Identifier.rust s.field).toList)
    (h : Refers s.shape) : Reads (field s) [Identifier.rust s.field] := by
  have hdoc : Reads (s.doc.toList.map (.doc "    /// ")) [] := by
    refine .of_none fun p hp => ?_
    obtain ⟨doc, -, rfl⟩ := List.mem_map.mp hp
    exact Piece.words_doc (by decide) doc
  refine hdoc.append (.of_line .field (.inl ?_) hfield (closes_rustType h))
  simp [Mark.text, toString, String.toList_append]

theorem reads_messageStruct {t : MessageTable} (hmessage : IsWord t.message.toList)
    (hfields : ∀ s ∈ t.slots, IsWord (Identifier.rust s.field).toList)
    (hrefers : ∀ s ∈ t.slots, Refers s.shape) (doc : String) :
    Reads (messageStruct t doc) (t.message :: t.slots.map fun s => Identifier.rust s.field) := by
  have hdoc : Reads [.text "\n", .doc "/// " doc] [] := reads_doc doc
  have hattributes : Reads
      [.text "#[derive(Debug, Clone, Default, PartialEq, Serialize, Deserialize)]\n",
        .text "#[serde(default)]\n"] [] := by
    apply Reads.of_texts
    · exact .cons rfl (.cons rfl .nil)
    · decide +kernel
  have hname : Reads [.text ("pub struct " ++ t.message ++ " \x7b\n")] [t.message] :=
    .of_fixed .struct (.inl rfl) rfl (by decide) hmessage (by decide)
  have hslots : Reads (t.slots.flatMap field)
      (t.slots.flatMap fun s => [Identifier.rust s.field]) :=
    .flatMap fun s hs => reads_field (hfields s hs) (hrefers s hs)
  have hlast : Reads [.text "\x7d\n"] [] := .of_none (by decide)
  have hall := (((hdoc.append hattributes).append hname).append hslots).append hlast
  rw [List.append_nil, ← List.map_eq_flatMap] at hall
  exact hall

/-! ### Call descriptions -/

/-- What the lines of a call description start with that have no identifiers, and the one that takes
a function up into the table. -/
theorem apart_entries : ∀ start ∈ ["    function: ", "    target: ", "    plsql: ",
    "    params: &[", "    streaming: ", "    json_replacement: ", "    handlers: &[",
    "    max_table_size: ", "        Param \x7b name: ", "    table.insert("],
    (∀ m ∈ Mark.all, Mark.Apart m.text.toList start.toList) ∧ '\n' ∉ start.toList := by
  decide +kernel

/-- A line that starts with anything but a mark has no identifiers. -/
theorem words_entry {start middle last : String} {cs : List Char}
    (hstart : (∀ m ∈ Mark.all, Mark.Apart m.text.toList start.toList) ∧ '\n' ∉ start.toList)
    (hmiddle : '\n' ∉ middle.toList) (hlast : last = String.ofList cs)
    (hend : cs.getLast? = some '\n' ∧ '\n' ∉ cs.dropLast) :
    (Piece.text (start ++ middle ++ last)).words = [] := by
  obtain ⟨hlast', hnewline⟩ := hend
  obtain ⟨line, rfl⟩ := List.getLast?_eq_some_iff.mp hlast'
  rw [List.dropLast_concat] at hnewline
  have htext : (start ++ middle ++ last).toList =
      start.toList ++ (middle.toList ++ line) ++ ['\n'] := by
    simp only [hlast, String.toList_append, String.toList_ofList, List.append_assoc]
  have hline : '\n' ∉ start.toList ++ (middle.toList ++ line) := by
    simp only [List.mem_append, not_or]
    exact ⟨hstart.2, hmiddle, hnewline⟩
  rw [Piece.words_text (.inl htext), words_of_apart hstart.1 hline]

/-- A bound parameter is a line without identifiers. -/
theorem words_param (name field : String) (ordinal : Nat) (way : Direction) (type : DataType) :
    ∃ line, (param name field ordinal way type).toList = line ++ ['\n'] ∧ words line = [] := by
  have hend : ∀ front : String,
      (front ++ " \x7d,\n").toList = (front.toList ++ " \x7d,".toList) ++ ['\n'] := by
    intro front
    rw [String.toList_append, List.append_assoc]
    exact congrArg (front.toList ++ ·) (by decide)
  have hway : '\n' ∉ (direction way).toList := by
    cases way <;> decide
  have htexts : ∀ text ∈
      [", field: ", ", ordinal: ", ", direction: ", ", catalog_type: ", " \x7d,"],
      '\n' ∉ text.toList := by
    decide +kernel
  obtain ⟨hstart, hnewline⟩ := apart_entries "        Param \x7b name: " (by simp)
  refine ⟨_, hend _, ?_⟩
  simp only [String.toList_append, List.append_assoc]
  refine words_of_apart hstart ?_
  simp only [List.mem_append, not_or]
  exact ⟨hnewline, newline_notMem_quoted _, htexts _ (by simp), newline_notMem_quoted _,
    htexts _ (by simp), newline_notMem_toString _, htexts _ (by simp), hway, htexts _ (by simp),
    newline_notMem_quoted _, htexts _ (by simp)⟩

/-- Lines without identifiers in front of a text leave it those it has. -/
theorem words_join {texts : List String} {rest : List Char}
    (h : ∀ text ∈ texts, ∃ line, text.toList = line ++ ['\n'] ∧ words line = []) :
    words ((String.join texts).toList ++ rest) = words rest := by
  induction texts with
  | nil => simp [String.join]
  | cons text texts ih =>
      obtain ⟨⟨line, htext, hline⟩, htexts⟩ := List.forall_mem_cons.mp h
      rw [String.join_cons, String.toList_append, htext, List.append_assoc, List.append_assoc,
        List.singleton_append, words_append_cons, hline, List.nil_append, ih htexts]

theorem words_params (r : Routine) (c : CallLayout) (rest : List Char) :
    words ((params r c).toList ++ rest) = words rest := by
  rw [params, String.toList_append, List.append_assoc, words_join, words_join]
  · intro text htext
    obtain ⟨a, -, rfl⟩ := List.mem_map.mp htext
    exact words_param _ _ _ _ _
  · intro text htext
    obtain ⟨a, -, rfl⟩ := List.mem_map.mp htext
    exact words_param _ _ _ _ _

/-- Of the parts of a call description only the first has an identifier that is not always there. -/
theorem reads_callSpec {r : Routine} (hconstant : IsWord (Identifier.constant r).toList)
    (c : CallLayout) (options : Options) :
    Reads (callSpec r c options) [Identifier.constant r] := by
  have hname : Reads
      [.text ("\npub static " ++ Identifier.constant r ++ ": CallSpec = CallSpec \x7b\n")]
      [Identifier.constant r] :=
    .of_fixed .static (.inr (by decide)) rfl (by decide) hconstant (by decide)
  have hstarts := apart_entries
  simp only [List.forall_mem_cons] at hstarts
  obtain ⟨hfunction, htarget, hblock, hparams, hstreaming, hjson, hhandlers, hcap, -⟩ := hstarts
  have hbound : (Piece.text ("    params: &[\n" ++ params r c ++ "    ],\n")).words = [] := by
    have hlines : ("    params: &[\n" ++ params r c ++ "    ],\n").toList =
        "    params: &[".toList ++ [] ++ '\n' :: ((params r c).toList ++ "    ],\n".toList) := by
      simp [String.toList_append]
    have hlast : words "    ],\n".toList = [] := by decide +kernel
    rw [Piece.words, Piece.render, hlines, words_append_cons, words_params, hlast,
      words_of_apart hparams.1 (by simp)]
    rfl
  have hnames : '\n' ∉ (", ".intercalate (r.handlers.map Text.quoted)).toList := by
    intro hmem
    rw [String.toList_intercalate] at hmem
    rcases of_mem_intercalate hmem with hmem | ⟨text, htext, hmem⟩
    · exact absurd hmem (by decide)
    · simp only [List.map_map, List.mem_map, Function.comp_apply] at htext
      obtain ⟨handler, -, rfl⟩ := htext
      exact newline_notMem_quoted handler hmem
  have htruth : ∀ b, '\n' ∉ (truth b).toList := by decide +kernel
  have hrest : Reads (callSpec r c options).tail [] := by
    refine .of_none ?_
    simp only [callSpec, List.tail_cons, List.forall_mem_cons]
    exact ⟨words_entry hfunction (newline_notMem_quoted _) rfl (by decide),
      words_entry htarget (newline_notMem_quoted _) rfl (by decide),
      words_entry hblock (newline_notMem_quoted _) rfl (by decide), hbound,
      words_entry hstreaming (htruth _) rfl (by decide),
      words_entry hjson (htruth _) rfl (by decide),
      words_entry hhandlers hnames rfl (by decide),
      words_entry hcap (newline_notMem_toString _) rfl (by decide), by decide, by simp⟩
  exact hname.append hrest

/-! ### Functions -/

/-- A function is declared by its call, refers to both messages, and hands its constant on. -/
theorem reads_function {r : Routine} {c : CallLayout} (hcall : IsWord (Identifier.call r).toList)
    (hconstant : IsWord (Identifier.constant r).toList)
    (hrequest : isLegal c.request.message.toList) (hresponse : isLegal c.response.message.toList) :
    Reads (function r c) [Identifier.call r, Identifier.constant r] := by
  have hdoc := reads_doc r.doc.common
  have hlast : Reads [.text "\x7d\n"] [] := .of_none (by decide)
  have hall := fun {head session} (hhead : Reads [.text head] [Identifier.call r])
      (hsession : Reads [.text session] [Identifier.constant r]) =>
    ((hdoc.append hhead).append hsession).append hlast
  have hopen : Closes '<' "S: Session>(session: ".toList := by decide
  have hreference : Closes '&' "mut S, request: ".toList := by decide
  have harrow : Closes ')' " -> Result".toList := by decide
  have hrest : Closes ',' " S::Error> \x7b".toList := by decide
  have hmiddle := (hopen.append hreference).append
    ((closes_of_isLegal (d := '&') (by decide) hrequest).append harrow)
  have hresult := closes_of_isLegal (d := '<') (by decide) hresponse
  have hpass : Closes ',' " request)".toList := by decide
  rw [function]
  cases c.streaming with
  | false =>
      refine hall (.of_line .function (.inl ?_) hcall (hmiddle.append (hresult.append hrest)))
        (.of_line .call (.inl ?_) hconstant hpass)
      · simp [Mark.text, String.toList_append]
      · simp [Mark.text, String.toList_append]
  | true =>
      have hvec : Closes '<' "Vec".toList := by decide
      have hstop : Closes '>' [] := by decide
      refine hall (.of_line .function (.inl ?_) hcall
          (hmiddle.append (hvec.append (hresult.append (hstop.append hrest)))))
        (.of_line .stream (.inl ?_) hconstant hpass)
      · simp [Mark.text, toString, String.toList_append]
      · simp [Mark.text, String.toList_append]

theorem reads_dispatchEntry {r : Routine} {c : CallLayout}
    (hcall : IsWord (Identifier.call r).toList) (hrequest : isLegal c.request.message.toList) :
    Reads (dispatchEntry r c) [c.request.message, Identifier.call r] := by
  have hfirst : Reads [.text ("    table.insert(" ++ Text.quoted c.routine ++
      ", |session, input| \x7b\n")] [] := by
    have hstart := apart_entries "    table.insert(" (List.mem_of_getLast? rfl)
    refine .of_none (List.forall_mem_singleton.mpr ?_)
    exact words_entry hstart (newline_notMem_quoted _) rfl (by decide)
  have hmessage : Reads [.text ("        let request: " ++ c.request.message ++
      " = serde_json::from_value(input).map_err(DispatchError::Json)?;\n")] [c.request.message] :=
    .of_fixed .request (.inl rfl) rfl (by decide) (isWord_of_isLegal hrequest).1 (by decide)
  have hresponse : Reads [.text ("        let response = " ++ Identifier.call r ++
      "(session, &request).map_err(DispatchError::Call)?;\n")] [Identifier.call r] :=
    .of_fixed .response (.inl rfl) rfl (by decide) hcall (by decide)
  have hlast : Reads [.text "        serde_json::to_value(response).map_err(DispatchError::Json)\n",
      .text "    \x7d);\n"] [] := by
    apply Reads.of_texts
    · exact .cons rfl (.cons rfl .nil)
    · decide +kernel
  exact ((hfirst.append hmessage).append hresponse).append hlast

/-- Lines of which each is legal are legal together. -/
theorem legal_join {lines : List String} {css : List (List Char)}
    (hsame : List.Forall₂ (fun line cs => line = String.ofList cs) lines css)
    (hlegal : ∀ cs ∈ css, '\n' ∉ cs ∧ ∀ w ∈ lineWords cs, isLegal w) :
    ∀ w ∈ words (String.join (lines.map (· ++ "\n"))).toList, isLegal w := by
  induction hsame with
  | nil =>
      intro w hw
      rw [List.map_nil, String.join_nil, String.toList_empty, words_nil] at hw
      cases hw
  | @cons line cs lines css hline _ ih =>
      obtain ⟨⟨hnewline, hcs⟩, hcss⟩ := List.forall_mem_cons.mp hlegal
      intro w hw
      rw [List.map_cons, String.join_cons, String.toList_append, String.toList_append, hline,
        String.toList_ofList, List.append_assoc] at hw
      have hsplit : w ∈ words cs ∨ w ∈ words (String.join (lines.map (· ++ "\n"))).toList := by
        rw [← List.mem_append, ← words_append_cons]
        exact hw
      exact hsplit.elim (fun h => hcs w (words_subset hnewline h)) (ih hcss w)

/-- What all wrappers have in common is legal. -/
theorem reads_preamble : Reads [.text preamble] [] := by
  -- the lines as characters, so that no literal has to be decoded
  have hlines : ∃ css, List.Forall₂ (fun line cs => line = String.ofList cs) preambleLines css ∧
      ∀ cs ∈ css, '\n' ∉ cs ∧ ∀ w ∈ lineWords cs, isLegal w := by
    apply Exists.intro
    apply And.intro
    · repeat' first | exact rfl | exact .nil | apply List.Forall₂.cons
    · decide +kernel
  obtain ⟨css, hsame, hlegal⟩ := hlines
  refine ⟨by simp, fun w hw => .inr (legal_join hsame hlegal w ?_)⟩
  rw [List.flatMap_singleton] at hw
  exact hw

/-- The table of the functions and, for each, the lines that take it up. -/
theorem reads_dispatch {calls : List (Routine × CallLayout)}
    (h : ∀ rc ∈ calls, IsWord (Identifier.call rc.1).toList ∧
      isLegal rc.2.request.message.toList) :
    Reads (dispatch calls)
      (calls.flatMap fun rc => [rc.2.request.message, Identifier.call rc.1]) := by
  have hhead : Reads [.text "\n/// Wrappers by lower-cased `package.name`, over JSON messages.\n",
      .text "pub fn handlers<S: Session>() -> BTreeMap<&'static str, Handler<S>> \x7b\n",
      .text "    let mut table: BTreeMap<&'static str, Handler<S>> = BTreeMap::new();\n"] [] := by
    apply Reads.of_texts
    · exact .cons rfl (.cons rfl (.cons rfl .nil))
    · decide +kernel
  have hentries : Reads (calls.flatMap fun rc => dispatchEntry rc.1 rc.2)
      (calls.flatMap fun rc => [rc.2.request.message, Identifier.call rc.1]) :=
    .flatMap fun rc hrc => reads_dispatchEntry (h rc hrc).1 (h rc hrc).2
  have hlast : Reads [.text "    table\n\x7d\n"] [] := .of_none (by decide +kernel)
  have hall := (hhead.append hentries).append hlast
  rw [List.nil_append, List.append_nil] at hall
  exact hall

/-! ### The whole source -/

/-- The names that a message is written with. -/
def messageNames (t : MessageTable) : List String :=
  t.message :: t.slots.map fun s => Identifier.rust s.field

/-- The names of the structures and their fields, of the call descriptions and of the functions. -/
def declared (m : Model) (calls : List (Routine × CallLayout)) : List String :=
  (calls.flatMap (fun rc => [rc.2.request, rc.2.response]) ++
      m.layout.messages.values).flatMap messageNames ++
    calls.flatMap fun rc => [Identifier.constant rc.1, Identifier.call rc.1]

/-- All names of the message are legal, those that it refers to included. -/
structure Legal (t : MessageTable) : Prop where
  names : ∀ name ∈ messageNames t, isLegal name.toList
  refers : ∀ s ∈ t.slots, Refers s.shape

/-- All messages are legal, and the other names could not be cut. -/
structure Readable (m : Model) (calls : List (Routine × CallLayout)) : Prop where
  call : ∀ rc ∈ calls, IsWord (Identifier.call rc.1).toList
  constant : ∀ rc ∈ calls, IsWord (Identifier.constant rc.1).toList
  request : ∀ rc ∈ calls, Legal rc.2.request
  response : ∀ rc ∈ calls, Legal rc.2.response
  messages : ∀ t ∈ m.layout.messages.values, Legal t

theorem reads_message {t : MessageTable} (h : Legal t) (doc : String) :
    Reads (messageStruct t doc) (messageNames t) := by
  obtain ⟨hmessage, hfields⟩ := List.forall_mem_cons.mp h.names
  refine reads_messageStruct (isWord_of_isLegal hmessage).1 (fun s hs => ?_) h.refers doc
  exact (isWord_of_isLegal (hfields _ (List.mem_map_of_mem hs))).1

/-- **The words of the wrapper** are the names it declares and legal ones. -/
theorem reads_pieces {m : Model} {calls : List (Routine × CallLayout)} (h : Readable m calls)
    (options : Options) : Reads (pieces m options calls) (declared m calls) := by
  have hlegal : ∀ t, Legal t → isLegal t.message.toList := fun t ht =>
    ht.names _ List.mem_cons_self
  have hfirst : Reads [.text "//! Code generated by procgen. DO NOT EDIT.\n"] [] :=
    .of_none (by decide +kernel)
  have hstructures : Reads (calls.flatMap fun rc => callStructures rc.1 rc.2)
      (calls.flatMap fun rc => messageNames rc.2.request ++ messageNames rc.2.response) :=
    .flatMap fun rc hrc =>
      (reads_message (h.request rc hrc) _).append (reads_message (h.response rc hrc) _)
  have hrecords : Reads (m.layout.messages.values.flatMap (messageStruct · ""))
      (m.layout.messages.values.flatMap messageNames) :=
    .flatMap fun t ht => reads_message (h.messages t ht) ""
  have hfunctions : Reads (calls.flatMap fun rc => callSpec rc.1 rc.2 options ++ function rc.1 rc.2)
      (calls.flatMap fun rc => [Identifier.constant rc.1] ++
        [Identifier.call rc.1, Identifier.constant rc.1]) := by
    refine .flatMap fun rc hrc => ?_
    have hconstant := h.constant rc hrc
    exact (reads_callSpec hconstant rc.2 options).append (reads_function (h.call rc hrc) hconstant
      (hlegal _ (h.request rc hrc)) (hlegal _ (h.response rc hrc)))
  have hdispatch := reads_dispatch fun rc hrc =>
    ⟨h.call rc hrc, hlegal _ (h.request rc hrc)⟩
  have hall := ((((hfirst.append reads_preamble).append hstructures).append hrecords).append
    hfunctions).append hdispatch
  refine hall.congr fun name => ?_
  have hown : ∀ t : MessageTable, t.message ∈ messageNames t := fun _ => List.mem_cons_self
  simp only [declared, List.mem_append, List.mem_flatMap, List.mem_cons, List.not_mem_nil]
  grind

/-- A wrapper is read by its parts. -/
theorem words_render {m : Model} {calls : List (Routine × CallLayout)}
    (hcalls : m.calls = .ok calls) (options : Options) :
    ∃ text, render m options = .ok text ∧
      words text.toList = (pieces m options calls).flatMap Piece.words := by
  refine ⟨Piece.renderAll (pieces m options calls), by rw [render, hcalls]; rfl, ?_⟩
  rw [Piece.renderAll, String.toList_ofList,
    Piece.words_flatMap_render (alike_pieces m options calls).whole]

end Wrapper

end RoutineBridge
