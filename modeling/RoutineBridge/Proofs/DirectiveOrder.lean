import Mathlib.Data.List.Induction
import Mathlib.Data.List.Perm.Basic
import RoutineBridge.Proofs.Verdicts

/-!
# Where the order of directives matters

Verbs take effect in a fixed order, so only the order within a verb can matter. Within two of them
it does not: hiding a routine and hiding another one can be done in either order, also if a name is
given twice or not at all, and so can raising caps. For the other verbs the order that is given
counts, so two lists with the same renames, replacements and handlers in the same order leave the
same routines (`applyAll_order`). What a routine is capped at does not depend on anything else: it
is the largest of the sizes that are given for its catalog name and the cap it had.
-/

namespace RoutineBridge

namespace Effects

variable {key : String} {d : Directive} {ds ds' : List Directive} {rs start : List Routine}

/-! ## Hiding -/

theorem eraseP_eq_takeOut (key : String) (rs : List Routine) :
    rs.eraseP (·.catalogKey == key) = (takeOut key rs).elim rs (·.2) := by
  induction rs with
  | nil => rfl
  | cons r rs ih =>
      rw [takeOut]
      by_cases hkey : r.catalogKey = key
      · rw [if_pos hkey, List.eraseP_cons_of_pos (by simpa using hkey)]
        rfl
      · rw [if_neg hkey, List.eraseP_cons_of_neg (by simpa using hkey), ih]
        cases takeOut key rs with
        | none => rfl
        | some found => rfl

theorem routinesAfter_hide (verb : d.verb = .hide) (rs : List Routine) :
    routinesAfter d rs = rs.eraseP (·.catalogKey == d.targetKey) := by
  rw [routinesAfter, perform, eraseP_eq_takeOut]
  simp only [verb]
  rw [outcome_takeRoutine_bind]
  cases takeOut d.targetKey rs with
  | none => rfl
  | some found => rfl

theorem hide_comm {e : Directive} (hd : d.verb = .hide) (he : e.verb = .hide) (rs : List Routine) :
    routinesAfter e (routinesAfter d rs) = routinesAfter d (routinesAfter e rs) := by
  simp only [routinesAfter_hide hd, routinesAfter_hide he]
  by_cases hkey : d.targetKey = e.targetKey
  · rw [hkey]
  · refine List.eraseP_comm fun r _ => ?_
    simp only [beq_iff_eq]
    rw [← not_and_or]
    rintro ⟨htarget, htarget'⟩
    exact hkey (htarget.symm.trans htarget')

/-! ## Raising caps -/

/-- The first routine of a catalog name is changed if there is one. -/
def changed (key : String) (f : Routine → Routine) (rs : List Routine) : List Routine :=
  (change key f rs).getD rs

theorem changed_cons (key : String) (f : Routine → Routine) (r : Routine) (rs : List Routine) :
    changed key f (r :: rs) = if r.catalogKey = key then f r :: rs else r :: changed key f rs := by
  rw [changed, change]
  split
  · rfl
  · rw [changed]
    cases change key f rs with
    | none => rfl
    | some rs' => rfl

theorem changed_comm {f g : Routine → Routine} (hf : ∀ r, (f r).catalogKey = r.catalogKey)
    (hg : ∀ r, (g r).catalogKey = r.catalogKey) (hcomm : ∀ r, f (g r) = g (f r))
    (key key' : String) (rs : List Routine) :
    changed key f (changed key' g rs) = changed key' g (changed key f rs) := by
  induction rs with
  | nil => rfl
  | cons r rs ih =>
      rw [changed_cons key' g r, changed_cons key f r]
      by_cases hkey : r.catalogKey = key
      · by_cases hkey' : r.catalogKey = key'
        · rw [if_pos hkey, if_pos hkey', changed_cons, changed_cons, if_pos ((hg r).trans hkey),
            if_pos ((hf r).trans hkey'), hcomm]
        · rw [if_pos hkey, if_neg hkey', changed_cons, changed_cons, if_pos hkey,
            if_neg ((hf r).trans_ne hkey')]
      · by_cases hkey' : r.catalogKey = key'
        · rw [if_neg hkey, if_pos hkey', changed_cons, changed_cons, if_pos hkey',
            if_neg ((hg r).trans_ne hkey)]
        · rw [if_neg hkey, if_neg hkey', changed_cons, changed_cons, if_neg hkey, if_neg hkey', ih]

theorem raiseCap_comm (m n : Nat) (r : Routine) :
    raiseCap m (raiseCap n r) = raiseCap n (raiseCap m r) := by
  have hcap : max (r.maxTableSize.elim n (max · n)) m =
      max (r.maxTableSize.elim m (max · m)) n := by
    cases r.maxTableSize with
    | none => exact Nat.max_comm n m
    | some cap => exact Nat.max_right_comm cap n m
  simp only [raiseCap, Option.elim_some, hcap]

theorem routinesAfter_maxTableSize (verb : d.verb = .maxTableSize) (rs : List Routine) :
    routinesAfter d rs = d.size.elim rs fun size => changed d.targetKey (raiseCap size) rs := by
  rw [routinesAfter, perform]
  simp only [verb]
  cases d.size with
  | none => rfl
  | some size =>
      dsimp only
      rw [outcome_changeRoutine, Option.elim_some, changed]
      cases change d.targetKey (raiseCap size) rs with
      | none => rfl
      | some rs' => rfl

theorem maxTableSize_comm {e : Directive} (hd : d.verb = .maxTableSize)
    (he : e.verb = .maxTableSize) (rs : List Routine) :
    routinesAfter e (routinesAfter d rs) = routinesAfter d (routinesAfter e rs) := by
  simp only [routinesAfter_maxTableSize hd, routinesAfter_maxTableSize he]
  cases d.size with
  | none => rfl
  | some m =>
      cases e.size with
      | none => rfl
      | some n =>
          refine changed_comm ?_ ?_ (raiseCap_comm n m) _ _ rs
          · exact fun r => rfl
          · exact fun r => rfl

/-! ## The order of directives -/

/-- The verbs for which the order matters. -/
def orderedVerbs : List Directive.Verb := [.rename, .replace, .replaceJson, .handle]

/-- Directives of one verb that can change places leave the same in any order. -/
theorem foldl_routinesAfter_perm {v : Directive.Verb}
    (hcomm : ∀ d e : Directive, d.verb = v → e.verb = v → ∀ rs,
      routinesAfter e (routinesAfter d rs) = routinesAfter d (routinesAfter e rs))
    (h : ds.Perm ds') (rs : List Routine) :
    (ds.filter (·.verb == v)).foldl (fun rs d => routinesAfter d rs) rs =
      (ds'.filter (·.verb == v)).foldl (fun rs d => routinesAfter d rs) rs := by
  have hverb : ∀ d ∈ ds.filter (·.verb == v), d.verb = v := fun d hd =>
    beq_iff_eq.mp (List.mem_filter.mp hd).2
  exact (h.filter _).foldl_eq' (fun d hd e he rs => hcomm d e (hverb d hd) (hverb e he) rs) rs

theorem foldl_inOrder_congr (h : ds.Perm ds')
    (hordered : ∀ v ∈ orderedVerbs, ds.filter (·.verb == v) = ds'.filter (·.verb == v))
    (rs : List Routine) :
    (inOrder ds).foldl (fun rs d => routinesAfter d rs) rs =
      (inOrder ds').foldl (fun rs d => routinesAfter d rs) rs := by
  have hsame : ∀ v rs, (ds.filter (·.verb == v)).foldl (fun rs d => routinesAfter d rs) rs =
      (ds'.filter (·.verb == v)).foldl (fun rs d => routinesAfter d rs) rs := by
    intro v rs
    cases v with
    | hide => exact foldl_routinesAfter_perm (fun d e hd he => hide_comm hd he) h rs
    | maxTableSize => exact foldl_routinesAfter_perm (fun d e hd he => maxTableSize_comm hd he) h rs
    | _ => rw [hordered _ (by decide)]
  rw [inOrder, inOrder, List.foldl_flatMap, List.foldl_flatMap]
  congr 1
  funext rs v
  exact hsame v rs

/-! ## Caps -/

/-- The sizes that are given for the routine of a catalog name. -/
def sizesFor (ds : List Directive) (key : String) : List Nat :=
  ((ds.filter (·.verb == .maxTableSize)).filter (·.targetKey == key)).filterMap (·.size)

theorem sizesFor_inOrder (ds : List Directive) (key : String) :
    sizesFor (inOrder ds) key = sizesFor ds key := by
  rw [sizesFor, filter_verb_inOrder, sizesFor]

theorem sizesFor_concat_of_ne (verb : d.verb ≠ .maxTableSize) (ds : List Directive) (key : String) :
    sizesFor (ds ++ [d]) key = sizesFor ds key := by
  rw [sizesFor, List.filter_append, List.filter_cons_of_neg (by simpa using verb), List.filter_nil,
    List.append_nil, sizesFor]

theorem sizesFor_concat (verb : d.verb = .maxTableSize) (ds : List Directive) (key : String) :
    sizesFor (ds ++ [d]) key =
      sizesFor ds key ++ if d.targetKey = key then d.size.toList else [] := by
  rw [sizesFor, List.filter_append, List.filter_append, List.filterMap_append, sizesFor,
    List.filter_cons_of_pos (by simpa using verb), List.filter_nil]
  by_cases hkey : d.targetKey = key
  · rw [if_pos hkey, List.filter_cons_of_pos (by simpa using hkey), List.filter_nil]
    cases hsize : d.size <;> simp [hsize]
  · rw [if_neg hkey, List.filter_cons_of_neg (by simpa using hkey), List.filter_nil,
      List.filterMap_nil]

theorem max?_concat (sizes : List Nat) (size : Nat) :
    (sizes ++ [size]).max? = some (sizes.max?.elim size (max · size)) := by
  induction sizes with
  | nil => rfl
  | cons n sizes ih =>
      rw [List.cons_append, List.max?_cons, List.max?_cons, ih]
      cases sizes.max? with
      | none => rfl
      | some m => simp [Nat.max_assoc]

/-- If no two routines have one catalog name, all routines of the name are changed. -/
theorem changed_eq_map (f : Routine → Routine) (h : (rs.map (·.catalogKey)).Nodup) :
    changed key f rs = rs.map fun r => if r.catalogKey = key then f r else r := by
  induction rs with
  | nil => rfl
  | cons r rs ih =>
      rw [List.map_cons, List.nodup_cons] at h
      rw [changed_cons, List.map_cons]
      by_cases hkey : r.catalogKey = key
      · have hothers : ∀ s ∈ rs, s.catalogKey ≠ key := fun s hs heq =>
          h.1 (List.mem_map.mpr ⟨s, hs, heq.trans hkey.symm⟩)
        rw [if_pos hkey, if_pos hkey]
        congr 1
        conv_lhs => rw [← List.map_id rs]
        exact List.map_congr_left fun s hs => (if_neg (hothers s hs)).symm
      · rw [if_neg hkey, if_neg hkey, ih h.2]

/-- No effect makes a catalog name appear twice. -/
theorem Effect.nodup_catalogKey {rs' : List Routine} (h : Effect d rs rs')
    (hrs : (rs.map (·.catalogKey)).Nodup) : (rs'.map (·.catalogKey)).Nodup := by
  cases h with
  | hide verb target =>
      refine hrs.sublist (List.Sublist.map _ ?_)
      exact (List.sublist_cons_self _ _).append_left _
  | rename verb exposed target free => rwa [List.map_append, List.map_cons] at hrs ⊢
  | replace verb target other taken =>
      have hrest := ((taken.map (·.catalogKey)).nodup_iff.mp hrs).of_cons
      rwa [List.map_append, List.map_cons] at hrest ⊢
  | handle verb =>
      rw [List.map_map]
      convert hrs using 2
      funext r
      rw [Function.comp_apply]
      split
      · exact Routine.catalogKey_eq_of_origin (origin_addHandler _ r)
      · rfl
  | cap verb target asked => rwa [List.map_append, List.map_cons] at hrs ⊢

theorem nodup_routinesAfter (d : Directive) (h : (rs.map (·.catalogKey)).Nodup) :
    ((routinesAfter d rs).map (·.catalogKey)).Nodup := by
  rcases perform_cases d rs with ⟨rs', hperform, heffect⟩ | ⟨refusal, hperform⟩
  · rw [routinesAfter, hperform]
    exact heffect.nodup_catalogKey h
  · rw [routinesAfter, hperform]
    exact h

/-- Every routine is capped at the largest of the cap it had at the start and the sizes that have
been given for it. -/
def Capped (start : List Routine) (ds : List Directive) (rs : List Routine) : Prop :=
  ∀ r ∈ rs, ∃ s ∈ start, s.toBody.origin = r.toBody.origin ∧
    r.maxTableSize = (s.maxTableSize.toList ++ sizesFor ds r.catalogKey).max?

theorem Capped.of_ne (h : Capped start ds rs) (verb : d.verb ≠ .maxTableSize) :
    Capped start (ds ++ [d]) (routinesAfter d rs) := by
  intro r hr
  rw [sizesFor_concat_of_ne verb]
  rcases perform_cases d rs with ⟨rs', hperform, heffect⟩ | ⟨refusal, hperform⟩
  · rw [routinesAfter, hperform] at hr
    obtain ⟨t, ht, hturns⟩ := heffect.exists_turns r hr
    obtain ⟨s, hs, horigin, hcap⟩ := h t ht
    refine ⟨s, hs, horigin.trans hturns.origin_eq, ?_⟩
    rw [hturns.maxTableSize_eq verb, hcap, Routine.catalogKey_eq_of_origin hturns.origin_eq]
  · rw [routinesAfter, hperform] at hr
    exact h r hr

theorem Capped.raise (h : Capped start ds rs) (hrs : (rs.map (·.catalogKey)).Nodup)
    (verb : d.verb = .maxTableSize) : Capped start (ds ++ [d]) (routinesAfter d rs) := by
  intro r hr
  rw [routinesAfter_maxTableSize verb] at hr
  rw [sizesFor_concat verb]
  cases hsize : d.size with
  | none =>
      -- nothing is asked for, and no size is added
      rw [hsize] at hr
      rw [Option.toList_none, ite_self, List.append_nil]
      exact h r hr
  | some size =>
      rw [hsize, Option.elim_some, changed_eq_map _ hrs] at hr
      obtain ⟨t, ht, rfl⟩ := List.mem_map.mp hr
      obtain ⟨s, hs, horigin, hcap⟩ := h t ht
      by_cases hkey : t.catalogKey = d.targetKey
      · rw [if_pos hkey]
        refine ⟨s, hs, horigin, ?_⟩
        rw [if_pos (show d.targetKey = (raiseCap size t).catalogKey from hkey.symm),
          Option.toList_some, ← List.append_assoc, max?_concat]
        exact congrArg (fun cap => some (Option.elim cap size (max · size))) hcap
      · rw [if_neg hkey, if_neg (Ne.symm hkey), List.append_nil]
        exact ⟨s, hs, horigin, hcap⟩

/-- **Caps are the largest sizes**, in whatever order directives are applied and whatever else they
do. -/
theorem capped_applyEach (hstart : (start.map (·.catalogKey)).Nodup) (ds : List Directive) :
    Capped start ds (applyEach ds start).1 ∧ ((applyEach ds start).1.map (·.catalogKey)).Nodup := by
  rw [applyEach_fst]
  induction ds using List.reverseRecOn with
  | nil =>
      refine ⟨fun r hr => ⟨r, hr, rfl, ?_⟩, hstart⟩
      cases hcap : r.maxTableSize <;> simp [sizesFor]
  | append_singleton ds d ih =>
      obtain ⟨hcapped, hnodup⟩ := ih
      rw [List.foldl_append, List.foldl_cons, List.foldl_nil]
      refine ⟨?_, nodup_routinesAfter d hnodup⟩
      by_cases hverb : d.verb = .maxTableSize
      · exact hcapped.raise hnodup hverb
      · exact hcapped.of_ne hverb

/-! ## Any order -/

/-- **Only renames, replacements and handlers have an order.** Lists of the same directives that
have each of these verbs in the same order leave the same routines. In particular a routine that is
left is capped at the largest of its cap at the start and all sizes given for its catalog name, and
at nothing if there is none of them. -/
theorem applyAll_order :
    (∀ (rs : List Routine) (ds ds' : List Directive), ds.Perm ds' →
      (∀ v ∈ orderedVerbs, ds.filter (·.verb == v) = ds'.filter (·.verb == v)) →
      (applyAll ds rs).1 = (applyAll ds' rs).1) ∧
    ∀ (rs : List Routine) (ds : List Directive), (rs.map (·.catalogKey)).Nodup →
      ∀ r ∈ (applyAll ds rs).1, ∃ s ∈ rs, s.toBody.origin = r.toBody.origin ∧
        r.maxTableSize = (s.maxTableSize.toList ++ sizesFor ds r.catalogKey).max? := by
  refine ⟨fun rs ds ds' hperm hordered => ?_, fun rs ds hrs r hr => ?_⟩
  · rw [applyAll, applyAll, applyEach_fst, applyEach_fst, foldl_inOrder_congr hperm hordered]
  · obtain ⟨s, hs, horigin, hcap⟩ := (capped_applyEach hrs (inOrder ds)).1 r hr
    rw [sizesFor_inOrder] at hcap
    exact ⟨s, hs, horigin, hcap⟩

/-- A routine with a cap, one without, and one that goes into the place of the first. -/
def sampleCapped : List Routine :=
  [{ Routine.named "APP" "PKG" "A" with maxTableSize := some 6 }, Routine.named "APP" "PKG" "B",
    Routine.named "APP" "PKG" "C"]

def sampleShuffled : List Directive :=
  [⟨"PKG", .maxTableSize, "A", none, some 4, none⟩, ⟨"PKG", .rename, "A", some "X", none, none⟩,
    ⟨"PKG", .hide, "B", none, none, none⟩, ⟨"PKG", .maxTableSize, "B", none, some 8, none⟩,
    ⟨"PKG", .replace, "A", some "C", none, none⟩, ⟨"PKG", .maxTableSize, "a", none, some 9, none⟩,
    ⟨"PKG", .hide, "GONE", none, none, none⟩, ⟨"PKG", .rename, "C", some "A", none, none⟩]

/-- The same directives in another order. The second rename takes the name that the first one gives
up, so these two cannot change places. -/
def sampleReshuffled : List Directive :=
  [⟨"PKG", .hide, "GONE", none, none, none⟩, ⟨"PKG", .replace, "A", some "C", none, none⟩,
    ⟨"PKG", .rename, "A", some "X", none, none⟩, ⟨"PKG", .maxTableSize, "a", none, some 9, none⟩,
    ⟨"PKG", .rename, "C", some "A", none, none⟩, ⟨"PKG", .hide, "B", none, none, none⟩,
    ⟨"PKG", .maxTableSize, "B", none, some 8, none⟩,
    ⟨"PKG", .maxTableSize, "A", none, some 4, none⟩]

theorem applyAll_order_sample :
    (applyAll sampleShuffled sampleCapped).1 = (applyAll sampleReshuffled sampleCapped).1 ∧
    (applyAll sampleShuffled sampleCapped).1.map (·.exposedName) = ["X"] ∧
    ∀ r ∈ (applyAll sampleShuffled sampleCapped).1, r.maxTableSize = some 9 := by
  have hkeys : (applyAll sampleShuffled sampleCapped).1.map (·.catalogKey) = ["pkg.a"] := by
    decide +kernel
  refine ⟨applyAll_order.1 _ _ _ (by decide +kernel) (by decide +kernel), by decide +kernel,
    fun r hr => ?_⟩
  obtain ⟨s, hs, horigin, hcap⟩ :=
    applyAll_order.2 sampleCapped sampleShuffled (by decide +kernel) r hr
  have hkey : r.catalogKey = "pkg.a" := by
    have hmem := List.mem_map_of_mem (f := (·.catalogKey)) hr
    rwa [hkeys, List.mem_singleton] at hmem
  have hsizes : ∀ s ∈ sampleCapped, s.catalogKey = "pkg.a" →
      (s.maxTableSize.toList ++ sizesFor sampleShuffled "pkg.a").max? = some 9 := by decide +kernel
  rw [hcap, hkey]
  exact hsizes s hs ((Routine.catalogKey_eq_of_origin horigin).trans hkey)

end Effects

end RoutineBridge
