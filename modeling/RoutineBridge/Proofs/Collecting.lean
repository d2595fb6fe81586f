import RoutineBridge.Proofs.Extensionality
import RoutineBridge.Proofs.Headings
import RoutineBridge.Text.Lines

/-!
# What a collector holds

A collector is fed with comments and code, one after the other, and what it holds can be read off
what it was fed with: the comments behind the last code that is not blank are pending
(`DocCollector.Trailing`), and a name is documented by the comments in front of the first code that
begins with a declaration of it and has comments in front of it (`DocCollector.Recorded`). Each step
keeps both (`DocCollector.Holds.take`). Main statement: this describes the documentation after any
run, and what is documented stays as it is (`DocCollector.collect_describes`).
-/

namespace RoutineBridge

namespace SortedMap

variable {κ ν : Type} [Ord κ] [Std.LawfulEqOrd κ] [Std.TransOrd κ]

/-- What is new is what was set, and only where nothing was. -/
theorem get?_insertNew {m : SortedMap κ ν} {k j : κ} {v w : ν} :
    (m.insertNew k v).get? j = some w ↔
      m.get? j = some w ∨ m.get? j = none ∧ j = k ∧ w = v := by
  rw [insertNew]
  by_cases hj : j = k
  · subst hj
    cases hget : m.get? j with
    | none => simp [contains, hget, eq_comm]
    | some u => simp [contains, hget]
  · split
    · simp [hj]
    · simp [get?_insert_of_ne _ _ hj, hj]

end SortedMap

namespace Text

/-- Joined by line feeds, texts that are not blank are blank only if there are none. -/
theorem isBlankText_join {ts : List (List Char)} (h : ∀ t ∈ ts, ¬ isBlankText t) :
    isBlankText (join ['\n'] ts) ↔ ts = [] := by
  rw [isBlankText_join_iff, List.eq_nil_iff_forall_not_mem]
  exact forall_congr' fun t =>
    ⟨fun hblank ht => h t ht (hblank ht), fun hnone ht => absurd ht hnone⟩

end Text

namespace DocCollector

/-! ## Runs -/

/-- What a collector is fed with. -/
inductive Step where
  | comment (text : List Char)
  | code (text : List Char)
deriving DecidableEq, Repr

namespace Step

/-- The text of a comment that is not blank. -/
def remark? : Step → Option (List Char)
  | comment text => if Text.isBlankText text then none else some text
  | code _ => none

/-- Code that is not blank. -/
def isSolidCode : Step → Bool
  | comment _ => false
  | code text => !Text.isBlankText text

end Step

def take (package : String) (c : DocCollector) : Step → DocCollector
  | .comment text => c.comment text
  | .code text => c.code package text

/-- The collector after a run. -/
def collect (package : String) (steps : List Step) : DocCollector :=
  steps.foldl (take package) .empty

/-- The comments that are not blank behind the last code that is not. -/
def Trailing (steps : List Step) (remarks : List (List Char)) : Prop :=
  ∃ earlier run, steps = earlier ++ run ∧ (∀ s ∈ earlier.getLast?, s.isSolidCode) ∧
    (∀ s ∈ run, ¬ s.isSolidCode) ∧ remarks = run.filterMap Step.remark?

/-- Behind the steps `before`, `s` is code that begins with a declaration whose key is `key`, and
`doc` is all comments right before it. -/
def Documents (package : String) (before : List Step) (s : Step) (key : String)
    (doc : List Char) : Prop :=
  ∃ text front name remarks, s = .code text ∧ Declaration.First text front name ∧
    key = qualify package (String.ofList name) ∧ Trailing before remarks ∧ remarks ≠ [] ∧
    doc = Text.join ['\n'] remarks

/-- Some step of the run documents the key. -/
def Documented (package : String) (steps : List Step) (key : String) : Prop :=
  ∃ before s after doc, steps = before ++ s :: after ∧ Documents package before s key doc

/-- The first step of the run that documents the key does so by `doc`. -/
def Recorded (package : String) (steps : List Step) (key : String) (doc : List Char) : Prop :=
  ∃ before s after, steps = before ++ s :: after ∧ Documents package before s key doc ∧
    ¬ Documented package before key

section Runs

variable {package key : String} {steps : List Step} {s : Step} {doc : List Char}

theorem concat_eq_append_cons {before after : List Step} {t : Step} :
    steps ++ [s] = before ++ t :: after ↔
      (∃ later, after = later ++ [s] ∧ steps = before ++ t :: later) ∨
        after = [] ∧ steps = before ∧ s = t := by
  rcases List.eq_nil_or_concat' after with rfl | ⟨later, u, rfl⟩
  · simp
  · rw [← List.cons_append, ← List.append_assoc, List.append_singleton_inj]
    constructor
    · rintro ⟨rfl, rfl⟩
      exact .inl ⟨later, rfl, rfl⟩
    · rintro (⟨later', hlast, rfl⟩ | ⟨hnil, -⟩)
      · obtain ⟨rfl, rfl⟩ := List.append_singleton_inj.mp hlast
        exact ⟨rfl, rfl⟩
      · simp at hnil

theorem documented_concat : Documented package (steps ++ [s]) key ↔
    Documented package steps key ∨ ∃ doc, Documents package steps s key doc := by
  constructor
  · rintro ⟨before, t, after, doc, hsplit, hdocuments⟩
    rcases concat_eq_append_cons.mp hsplit with ⟨later, -, hsteps⟩ | ⟨-, rfl, rfl⟩
    · exact .inl ⟨before, t, later, doc, hsteps, hdocuments⟩
    · exact .inr ⟨doc, hdocuments⟩
  · rintro (⟨before, t, after, doc, rfl, hdocuments⟩ | ⟨doc, hdocuments⟩)
    · exact ⟨before, t, after ++ [s], doc, by simp, hdocuments⟩
    · exact ⟨steps, s, [], doc, rfl, hdocuments⟩

theorem recorded_concat : Recorded package (steps ++ [s]) key doc ↔
    Recorded package steps key doc ∨
      Documents package steps s key doc ∧ ¬ Documented package steps key := by
  constructor
  · rintro ⟨before, t, after, hsplit, hdocuments, hfirst⟩
    rcases concat_eq_append_cons.mp hsplit with ⟨later, -, hsteps⟩ | ⟨-, rfl, rfl⟩
    · exact .inl ⟨before, t, later, hsteps, hdocuments, hfirst⟩
    · exact .inr ⟨hdocuments, hfirst⟩
  · rintro (⟨before, t, after, rfl, hdocuments, hfirst⟩ | ⟨hdocuments, hfirst⟩)
    · exact ⟨before, t, after ++ [s], by simp, hdocuments, hfirst⟩
    · exact ⟨steps, s, [], rfl, hdocuments, hfirst⟩

/-- Among the steps that document a key there is a first one. -/
theorem documented_iff : Documented package steps key ↔ ∃ doc, Recorded package steps key doc := by
  induction steps using List.reverseRecOn with
  | nil => simp [Documented, Recorded]
  | append_singleton steps s ih =>
      rw [documented_concat, ih]
      simp only [recorded_concat, ih]
      constructor
      · rintro (⟨doc, hrecorded⟩ | ⟨doc, hdocuments⟩)
        · exact ⟨doc, .inl hrecorded⟩
        · by_cases hbefore : ∃ doc, Recorded package steps key doc
          · exact hbefore.imp fun doc => .inl
          · exact ⟨doc, .inr ⟨hdocuments, hbefore⟩⟩
      · rintro ⟨doc, hrecorded | ⟨hdocuments, -⟩⟩
        · exact .inl ⟨doc, hrecorded⟩
        · exact .inr ⟨doc, hdocuments⟩

theorem trailing_nil : Trailing [] [] := ⟨[], [], rfl, by simp, by simp, rfl⟩

/-- Code that is not blank ends the comments before it. -/
theorem trailing_concat_of_isSolidCode (hs : s.isSolidCode) : Trailing (steps ++ [s]) [] := by
  refine ⟨steps ++ [s], [], by simp, fun t ht => ?_, fun t ht => absurd ht List.not_mem_nil, rfl⟩
  rw [List.getLast?_concat, Option.mem_some_iff] at ht
  exact ht ▸ hs

theorem Trailing.concat {remarks : List (List Char)} (h : Trailing steps remarks)
    (hs : ¬ s.isSolidCode) : Trailing (steps ++ [s]) (remarks ++ s.remark?.toList) := by
  obtain ⟨earlier, run, rfl, hended, hrun, rfl⟩ := h
  refine ⟨earlier, run ++ [s], by simp, hended, ?_, ?_⟩
  · intro t ht
    rcases List.mem_append.mp ht with ht | ht
    · exact hrun t ht
    · exact List.mem_singleton.mp ht ▸ hs
  · rw [List.filterMap_append]
    cases hremark : s.remark? <;> simp [hremark]

/-- A run without code does not reach beyond the last code. -/
theorem length_le_of_getLast? {earlier run earlier' run' : List Step}
    (hsplit : earlier ++ run = earlier' ++ run') (hended : ∀ s ∈ earlier'.getLast?, s.isSolidCode)
    (hrun : ∀ s ∈ run, ¬ s.isSolidCode) : earlier'.length ≤ earlier.length := by
  rcases List.append_eq_append_iff.mp hsplit with ⟨middle, rfl, rfl⟩ | ⟨middle, rfl, -⟩
  · -- were `earlier'` longer, the code at its end would stand in the run
    rcases List.eq_nil_or_concat' middle with rfl | ⟨front, s, rfl⟩
    · simp
    · have hcode := hended s (by simp)
      exact absurd hcode (hrun s (by simp))
  · simp

/-- The comments are those of the longest run that no code stands in. -/
theorem Trailing.unique {remarks remarks' : List (List Char)} (h : Trailing steps remarks)
    (h' : Trailing steps remarks') : remarks = remarks' := by
  obtain ⟨earlier, run, hsplit, hended, hrun, rfl⟩ := h
  obtain ⟨earlier', run', hsplit', hended', hrun', rfl⟩ := h'
  have hsame := hsplit.symm.trans hsplit'
  have hlength : earlier.length = earlier'.length :=
    Nat.le_antisymm (length_le_of_getLast? hsame.symm hended hrun')
      (length_le_of_getLast? hsame hended' hrun)
  rw [(List.append_inj hsame hlength).2]

theorem Trailing.not_isBlankText {remarks : List (List Char)} (h : Trailing steps remarks) :
    ∀ text ∈ remarks, ¬ Text.isBlankText text := by
  obtain ⟨earlier, run, -, -, -, rfl⟩ := h
  intro text htext
  obtain ⟨t, -, hremark⟩ := List.mem_filterMap.mp htext
  cases t with
  | comment other =>
      rw [Step.remark?] at hremark
      split at hremark
      · cases hremark
      · rename_i hvisible
        exact Option.some.inj hremark ▸ hvisible
  | code other => cases hremark

/-- Code documents one key at most, by one text. -/
theorem documents_code_iff {text front name : List Char} {remarks : List (List Char)}
    (hfirst : Declaration.First text front name) (htrailing : Trailing steps remarks) :
    Documents package steps (.code text) key doc ↔ remarks ≠ [] ∧
      key = qualify package (String.ofList name) ∧ doc = Text.join ['\n'] remarks := by
  constructor
  · rintro ⟨text', front', name', remarks', htext, hfirst', rfl, htrailing', hremarks, rfl⟩
    obtain rfl := Step.code.inj htext
    obtain ⟨-, rfl⟩ := hfirst.unique hfirst'
    obtain rfl := htrailing.unique htrailing'
    exact ⟨hremarks, rfl, rfl⟩
  · rintro ⟨hremarks, rfl, rfl⟩
    exact ⟨text, front, name, remarks, rfl, hfirst, rfl, htrailing, hremarks, rfl⟩

end Runs

/-! ## What a step keeps -/

/-- The collector holds what the run says. -/
structure Holds (package : String) (steps : List Step) (c : DocCollector) : Prop where
  pending : ∃ remarks, Trailing steps remarks ∧ c.pending = Text.join ['\n'] remarks
  docs : ∀ key doc, c.docs.get? key = some doc ↔ Recorded package steps key doc

section Steps

variable {package : String} {steps : List Step} {c : DocCollector} {s : Step} {text : List Char}

theorem holds_empty (package : String) : Holds package [] .empty where
  pending := ⟨[], trailing_nil, rfl⟩
  docs key doc := by simp [DocCollector.empty, SortedMap.empty, SortedMap.get?, Recorded]

/-- A step that documents nothing adds nothing. -/
theorem recorded_concat_of_not_documents (hs : ∀ key doc, ¬ Documents package steps s key doc)
    (key : String) (doc : List Char) :
    Recorded package (steps ++ [s]) key doc ↔ Recorded package steps key doc := by
  simp [recorded_concat, hs]

/-- Code without a heading documents nothing. -/
theorem not_documents_of_not_first (h : ∀ front name, ¬ Declaration.First text front name)
    (key : String) (doc : List Char) : ¬ Documents package steps (.code text) key doc := by
  rintro ⟨text', front, name, remarks, htext, hfirst, -⟩
  obtain rfl := Step.code.inj htext
  exact h front name hfirst

theorem Holds.comment (h : Holds package steps c) (text : List Char) :
    Holds package (steps ++ [.comment text]) (c.comment text) := by
  obtain ⟨remarks, htrailing, hpending⟩ := h.pending
  have hdocs : ∀ key doc, c.docs.get? key = some doc ↔
      Recorded package (steps ++ [.comment text]) key doc := by
    intro key doc
    rw [recorded_concat_of_not_documents, h.docs]
    rintro key doc ⟨_, _, _, _, htext, -⟩
    cases htext
  have hnext : Trailing (steps ++ [.comment text])
      (remarks ++ (Step.comment text).remark?.toList) :=
    htrailing.concat (by simp [Step.isSolidCode])
  rw [DocCollector.comment]
  by_cases hblank : Text.isBlankText text
  · rw [if_pos hblank]
    exact ⟨⟨remarks, by simpa [Step.remark?, hblank] using hnext, hpending⟩, hdocs⟩
  · rw [if_neg hblank]
    have hnext : Trailing (steps ++ [.comment text]) (remarks ++ [text]) := by
      simpa [Step.remark?, hblank] using hnext
    by_cases hnone : remarks = []
    · subst hnone
      have hempty : c.pending.isEmpty := by simp [hpending, Text.join]
      rw [if_pos hempty]
      exact ⟨⟨[text], hnext, rfl⟩, hdocs⟩
    · have hvisible : ¬ Text.isBlankText c.pending := by
        rwa [hpending, Text.isBlankText_join htrailing.not_isBlankText]
      have hfull : ¬ c.pending.isEmpty := by
        intro hempty
        rw [List.isEmpty_iff.mp hempty] at hvisible
        exact hvisible rfl
      rw [if_neg hfull]
      refine ⟨⟨remarks ++ [text], hnext, ?_⟩, hdocs⟩
      rw [Text.join_append hnone (List.cons_ne_nil _ _), ← hpending]
      rfl

/-- Code that documents nothing, unless it is blank, takes the comments away. -/
theorem Holds.discard (h : Holds package steps c) (hs : s.isSolidCode)
    (hnone : ∀ key doc, ¬ Documents package steps s key doc) :
    Holds package (steps ++ [s]) { c with pending := [] } where
  pending := ⟨[], trailing_concat_of_isSolidCode hs, rfl⟩
  docs key doc := by rw [recorded_concat_of_not_documents hnone, h.docs]

/-- Code with a heading is documented by the comments, unless its name is documented already. -/
theorem Holds.document (h : Holds package steps c) {front name : List Char}
    (hfirst : Declaration.First text front name) (hpending : ¬ Text.isBlankText c.pending) :
    Holds package (steps ++ [.code text])
      ⟨[], c.docs.insertNew (qualify package (String.ofList name)) c.pending⟩ := by
  obtain ⟨remarks, htrailing, hjoin⟩ := h.pending
  have hsolid : (Step.code text).isSolidCode := by
    simpa [Step.isSolidCode] using hfirst.not_isBlankText
  have hremarks : remarks ≠ [] := by
    rintro rfl
    exact hpending (hjoin ▸ rfl)
  refine ⟨⟨[], trailing_concat_of_isSolidCode hsolid, rfl⟩, fun key doc => ?_⟩
  have hfresh : c.docs.get? key = none ↔ ¬ Documented package steps key := by
    rw [documented_iff, Option.eq_none_iff_forall_ne_some, not_exists]
    exact forall_congr' fun doc => not_congr (h.docs key doc)
  rw [SortedMap.get?_insertNew, recorded_concat, h.docs, hfresh,
    documents_code_iff hfirst htrailing, hjoin]
  tauto

theorem Holds.code (h : Holds package steps c) (text : List Char) :
    Holds package (steps ++ [.code text]) (c.code package text) := by
  obtain ⟨remarks, htrailing, hpending⟩ := h.pending
  rw [DocCollector.code]
  by_cases hblank : Text.isBlankText text
  · have hnone : ∀ key doc, ¬ Documents package steps (.code text) key doc :=
      not_documents_of_not_first fun front name hfirst => hfirst.not_isBlankText hblank
    have hnext := htrailing.concat (s := .code text) (by simp [Step.isSolidCode, hblank])
    rw [if_pos hblank]
    refine ⟨⟨remarks, by simpa [Step.remark?] using hnext, hpending⟩, fun key doc => ?_⟩
    rw [recorded_concat_of_not_documents hnone, h.docs]
  · have hsolid : (Step.code text).isSolidCode := by simp [Step.isSolidCode, hblank]
    rw [if_neg hblank]
    cases hnames : Declaration.names text with
    | nil =>
        refine h.discard hsolid (not_documents_of_not_first fun front name hfirst => ?_)
        have hname := Declaration.mem_head?_names.mpr ⟨front, hfirst⟩
        simp [hnames] at hname
    | cons name names =>
        obtain ⟨front, hfirst⟩ : ∃ front, Declaration.First text front name :=
          Declaration.mem_head?_names.mp (by simp [hnames])
        dsimp only
        by_cases hempty : Text.isBlankText c.pending
        · have hremarks : remarks = [] := by
            rwa [hpending, Text.isBlankText_join htrailing.not_isBlankText] at hempty
          rw [if_pos hempty]
          refine h.discard hsolid fun key doc hdocuments => ?_
          exact ((documents_code_iff hfirst htrailing).mp hdocuments).1 hremarks
        · rw [if_neg hempty]
          exact h.document hfirst hempty

theorem Holds.take (h : Holds package steps c) (s : Step) :
    Holds package (steps ++ [s]) (c.take package s) := by
  cases s with
  | comment text => exact h.comment text
  | code text => exact h.code text

/-- After any run the collector holds what the run says. -/
theorem holds_collect (package : String) (steps : List Step) :
    Holds package steps (collect package steps) := by
  induction steps using List.reverseRecOn with
  | nil => exact holds_empty package
  | append_singleton steps s ih =>
      rw [collect, List.foldl_concat]
      exact ih.take s

/-- What is documented stays so, whatever follows. -/
theorem Recorded.append {key : String} {doc : List Char} (h : Recorded package steps key doc)
    (more : List Step) : Recorded package (steps ++ more) key doc := by
  obtain ⟨before, s, after, rfl, hdocuments, hfirst⟩ := h
  exact ⟨before, s, after ++ more, by simp, hdocuments, hfirst⟩

end Steps

/-- **What a collector holds**: a key is documented exactly if some code begins with a declaration
of it and has comments right before it, blank code and blank comments not counting; the first such
code decides, and the documentation is all comments back to the code before; and what follows later
changes nothing about it. -/
theorem collect_describes (package : String) (steps : List Step) :
    (∀ key, (collect package steps).docs.contains key ↔ Documented package steps key) ∧
      (∀ key doc, (collect package steps).docs.get? key = some doc ↔
        Recorded package steps key doc) ∧
      ∀ key doc, (collect package steps).docs.get? key = some doc →
        ∀ more, (collect package (steps ++ more)).docs.get? key = some doc := by
  have hdocs := (holds_collect package steps).docs
  refine ⟨fun key => ?_, hdocs, fun key doc hdoc more => ?_⟩
  · rw [SortedMap.contains, Option.isSome_iff_exists, documented_iff]
    exact exists_congr fun doc => hdocs key doc
  · exact ((holds_collect package (steps ++ more)).docs key doc).mpr
      (((hdocs key doc).mp hdoc).append more)

/-- Two comments with blank code between them, in front of a function. -/
def sampleSteps : List Step :=
  [.code "PACKAGE pkg IS\n".toList, .comment " Returns the user.".toList, .code "\n  ".toList,
    .comment " More text.".toList, .code "FUNCTION get_user(p_id NUMBER) RETURN t_user;\n".toList]

theorem collect_describes_sample :
    (collect "Pkg" sampleSteps).docs.get? "pkg.get_user" =
        some " Returns the user.\n More text.".toList ∧
      ∀ more, (collect "Pkg" (sampleSteps ++ more)).docs.get? "pkg.get_user" =
        some " Returns the user.\n More text.".toList := by
  have hdoc : (collect "Pkg" sampleSteps).docs.get? "pkg.get_user" =
      some " Returns the user.\n More text.".toList := by decide +kernel
  exact ⟨hdoc, (collect_describes "Pkg" sampleSteps).2.2 _ _ hdoc⟩

end DocCollector

end RoutineBridge
