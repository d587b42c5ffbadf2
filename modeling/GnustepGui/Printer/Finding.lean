import GnustepGui.Printer.Lists

/-!
# What a key finds

An empty string at the beginning of a list marks a keyword with options and is left out, but an empty value
or translation looks the same.

`Finds` is what reading the tables should give, and `tables_find` that it does exactly for the statements
in `Fits`, where no list consists of, or begins with, an empty string that is not the mark.
-/

namespace GnustepGui.Printer

namespace NSPrinter

open ListTable

/-- A main keyword has no slash and an option is not empty. -/
structure WellFormed (statements : List Statement) : Prop where
  plain : ∀ s ∈ keywords statements, Plain s.mainKeyword
  option_ne : ∀ s ∈ keywords statements, s.optionKeyword ≠ some ""

/-- Reading the tables after the statements. -/
structure Finds (statements : List Statement) (printer : NSPrinter) : Prop where
  pair : ∀ main option s, firstFor main option (keywords statements) = some s →
    printer.stringForKey (optionKey main option) "PPD" = .ok (substitute statements s.value)
  keyword : ∀ main s, optionsOf main (keywords statements) = [] →
    (plainOf main (keywords statements)).head? = some s →
    printer.stringForKey main "PPD" = .ok (substitute statements s.value)
  repeated : ∀ main ∈ repKeys, optionsOf main (keywords statements) = [] →
    plainOf main (keywords statements) ≠ [] →
    printer.stringListForKey main "PPD" =
      .ok (((plainOf main (keywords statements)).map (·.value)).mapM (substitute statements))
  options : ∀ main, plainOf main (keywords statements) = [] → optionsOf main (keywords statements) ≠ [] →
    printer.stringListForKey main "PPD" = .ok (some (optionsOf main (keywords statements)).eraseDups)
  total : ∀ key table, ∃ r, printer.stringForKey key table = .ok r ∧
    (r = none ↔ printer.isKey key table = false)

/-- No first value and no only translation is empty, and no option is the name of a symbol. -/
structure Fits (statements : List Statement) : Prop where
  pair : ∀ main option s, firstFor main option (keywords statements) = some s →
    substitute statements s.value ≠ some "" ∧ s.valueTranslation ≠ some "" ∧ s.optionTranslation ≠ some ""
  first : ∀ main s, optionsOf main (keywords statements) = [] →
    (plainOf main (keywords statements)).head? = some s → substitute statements s.value ≠ some ""
  translations : ∀ main, optionsOf main (keywords statements) = [] →
    (recorded main (keywords statements)).filterMap (·.valueTranslation) ≠ [""] ∧
      (recorded main (keywords statements)).filterMap (·.optionTranslation) ≠ [""]
  options : ∀ main, plainOf main (keywords statements) = [] → ∀ option ∈ optionsOf main (keywords statements),
    substitute statements option = some option

/-! ## Reading a list -/

section Reading

variable {printer : NSPrinter} {key table : String} {l : List String}

theorem stringListForKey_cons {s : String} {rest : List String}
    (h : (printer.table table).bind (List.lookup key) = some (s :: rest)) :
    printer.stringListForKey key table = .ok (some (if s = "" then rest else s :: rest)) := by
  unfold stringListForKey
  rw [h]

theorem stringForKey_cons {s : String} {rest : List String}
    (h : (printer.table table).bind (List.lookup key) = some (s :: rest)) (hs : s ≠ "") :
    printer.stringForKey key table = .ok (some s) := by
  unfold stringForKey
  rw [stringListForKey_cons h, if_neg hs]
  rfl

theorem stringForKey_single_empty (h : (printer.table table).bind (List.lookup key) = some [""]) :
    printer.stringForKey key table = .error .rangeException := by
  unfold stringForKey
  rw [stringListForKey_cons h, if_pos rfl]
  rfl

/-- Nothing is raised for a list with a string besides the mark. -/
theorem stringForKey_total :
    (∃ r, printer.stringForKey key table = .ok r ∧ (r = none ↔ printer.isKey key table = false)) ↔
      ∀ l, (printer.table table).bind (List.lookup key) = some l → l ≠ [] ∧ l ≠ [""] := by
  constructor
  · rintro ⟨r, hr, -⟩ l hl
    constructor <;> rintro rfl
    · unfold stringForKey stringListForKey at hr
      rw [hl] at hr
      cases hr
    · rw [stringForKey_single_empty hl] at hr
      cases hr
  · intro h
    unfold isKey
    cases hl : (printer.table table).bind (List.lookup key) with
    | none =>
      refine ⟨none, ?_, iff_of_true rfl rfl⟩
      unfold stringForKey stringListForKey
      rw [hl]
      rfl
    | some l =>
      obtain ⟨hne, hm⟩ := h l hl
      match l with
      | s :: rest =>
        by_cases hs : s = ""
        · subst hs
          match rest with
          | [] => exact absurd rfl hm
          | s' :: rest =>
            refine ⟨some s', ?_, by simp⟩
            unfold stringForKey
            rw [stringListForKey_cons hl, if_pos rfl]
            rfl
        · exact ⟨some s, stringForKey_cons hl hs, by simp⟩

end Reading

/-! ## The tables after a parse -/

theorem mapM_eq_self {f : String → Option String} {l : List String} : l.mapM f = some l ↔ ∀ s ∈ l, f s = some s := by
  induction l with
  | nil => simp
  | cons s l ih =>
    rw [List.forall_mem_cons, ← ih, List.mapM_cons]
    cases f s <;> cases l.mapM f <;> simp

theorem mapM_length {f : String → Option String} {l l' : List String} (h : l.mapM f = some l') :
    l'.length = l.length := by
  induction l generalizing l' with
  | nil =>
    obtain rfl := Option.some.inj h
    rfl
  | cons s l ih =>
    simp only [List.mapM_cons, Option.bind_eq_bind, Option.bind_eq_some_iff, Option.pure_def, Option.some.injEq] at h
    obtain ⟨s', -, rest, hr, rfl⟩ := h
    rw [List.length_cons, List.length_cons, ih hr]

section Parse

variable {statements : List Statement} {printer : NSPrinter}

theorem parsePPD_eq (h : parsePPD statements = some printer) :
    (load statements).ppd.replace (substitute statements) = some printer.ppd ∧
      printer = { load statements with ppd := printer.ppd } := by
  obtain ⟨ppd, hp, rfl⟩ := Option.map_eq_some_iff.mp h
  exact ⟨hp, rfl⟩

theorem lookup_ppd (h : parsePPD statements = some printer) {key : String} {l : List String}
    (hl : List.lookup key (Field.value.table (load statements)) = some l) :
    ∃ l', List.lookup key printer.ppd = some l' ∧ l.mapM (substitute statements) = some l' := by
  obtain ⟨hn, -⟩ | ⟨l₁, l', hl₁, hl', hm⟩ := lookup_replace (parsePPD_eq h).1 key
  · cases hl.symm.trans hn
  · obtain rfl := Option.some.inj (hl.symm.trans hl₁)
    exact ⟨l', hl', hm⟩

theorem lookup_ppd_none (h : parsePPD statements = some printer) {key : String}
    (hl : List.lookup key (Field.value.table (load statements)) = none) : List.lookup key printer.ppd = none := by
  obtain ⟨-, hn⟩ | ⟨l₁, l', hl₁, -⟩ := lookup_replace (parsePPD_eq h).1 key
  · exact hn
  · cases hl.symm.trans hl₁

/-! ## The other tables -/

/-- Every list has two strings. -/
def Paired (t : ListTable String String) : Prop :=
  ∀ key l, List.lookup key t = some l → 2 ≤ l.length

theorem Paired.add_add {t : ListTable String String} (h : Paired t) (a b key : String) :
    Paired (.add b key (.add a key t)) := by
  intro k l hl
  by_cases hk : k = key
  · subst hk
    rw [lookup_add_self, lookup_add_self] at hl
    obtain rfl := Option.some.inj hl
    rw [Option.getD_some, List.length_append, List.length_append]
    exact Nat.le_add_left 2 _
  · rw [lookup_add_ne hk, lookup_add_ne hk] at hl
    exact h k l hl

theorem addPPDKeyword_others (printer : NSPrinter) (s : KeywordStatement) :
    (printer.addPPDKeyword s).uiConstraints = printer.uiConstraints ∧
      (printer.addPPDKeyword s).orderDependency = printer.orderDependency := by
  unfold addPPDKeyword
  split
  · split
    · exact ⟨rfl, rfl⟩
    · dsimp only [addValue]
      split <;> exact ⟨rfl, rfl⟩
  · split <;> exact ⟨rfl, rfl⟩

theorem paired_load (statements : List Statement) :
    Paired (load statements).uiConstraints ∧ Paired (load statements).orderDependency := by
  refine load_induction (P := fun _ printer => Paired printer.uiConstraints ∧ Paired printer.orderDependency)
    ⟨?_, ?_⟩ (fun ks printer s ih => ?_) (fun ks printer a b c ih => ?_) (fun ks printer a b c ih => ?_) statements
  · intro key l hl
    cases hl
  · intro key l hl
    cases hl
  · obtain ⟨hu, ho⟩ := addPPDKeyword_others printer s
    rw [hu, ho]
    exact ih
  · exact ⟨ih.1.add_add _ _ _, ih.2⟩
  · exact ⟨ih.1, ih.2.add_add _ _ _⟩

theorem ne_of_two_le_length {l : List String} (h : 2 ≤ l.length) : l ≠ [] ∧ l ≠ [""] := by
  constructor <;> rintro rfl
  · exact absurd h (by decide)
  · exact absurd h (by decide)

/-! ## When nothing is raised -/

/-- The lists of a translation, where none is a single empty string. -/
theorem translation_ne (hw : WellFormed statements) (f : Field)
    (hp : ∀ main option s, firstFor main option (keywords statements) = some s → f.of s ≠ some "")
    (hpl : ∀ main, optionsOf main (keywords statements) = [] →
      (recorded main (keywords statements)).filterMap f.of ≠ [""])
    {key : String} {l : List String} (hl : List.lookup key (f.table (load statements)) = some l) :
    l ≠ [] ∧ l ≠ [""] := by
  have hlst := listed_load hw.plain
  obtain hk | ⟨main, option, hmn, rfl⟩ := plain_or_optionKey key
  · refine ⟨hlst.ne_nil hk hl, ?_⟩
    by_cases hop : optionsOf key (keywords statements) = []
    · rw [hlst.plain f key hk hop, listOrNone] at hl
      split at hl
      · cases hl
      · obtain rfl := Option.some.inj hl
        exact hpl key hop
    · obtain ⟨l', hl', ⟨option, ho, hm⟩, -⟩ := hlst.mixed f key hk hop
      obtain rfl := Option.some.inj (hl'.symm.trans hl)
      rintro rfl
      obtain ⟨s, hs, -, heq⟩ := mem_optionsOf.mp ho
      rw [List.mem_singleton.mp hm] at heq
      exact hw.option_ne s hs heq
  · rw [hlst.pair f main option hmn] at hl
    obtain ⟨v, hv, rfl⟩ := Option.map_eq_some_iff.mp hl
    obtain ⟨s, hs, hv⟩ := Option.bind_eq_some_iff.mp hv
    refine ⟨List.cons_ne_nil _ _, ?_⟩
    rintro heq
    obtain rfl := (List.cons.inj heq).1
    exact hp main option s hs hv

variable {s : KeywordStatement}

theorem lookup_value_pair (hw : WellFormed statements) {main option : String}
    (hs : firstFor main option (keywords statements) = some s) :
    List.lookup (optionKey main option) (Field.value.table (load statements)) = some [s.value] := by
  obtain ⟨hm, rfl, -⟩ := firstFor_eq_some hs
  have hmn := hw.plain s hm
  rw [(listed_load hw.plain).pair .value _ option hmn, hs]
  rfl

variable {main : String}

theorem lookup_value_plain (hw : WellFormed statements) (ho : optionsOf main (keywords statements) = [])
    (hp : plainOf main (keywords statements) ≠ []) : List.lookup main (Field.value.table (load statements)) =
      some ((recorded main (keywords statements)).map (·.value)) := by
  have hm : Plain main := by
    obtain ⟨s, hs, rfl⟩ := exists_mainKeyword.mpr (.inl hp)
    exact hw.plain s hs
  have hv : (recorded main (keywords statements)).filterMap Field.value.of =
      (recorded main (keywords statements)).map (·.value) := by
    rw [← List.filterMap_eq_map]
    rfl
  rw [(listed_load hw.plain).plain .value main hm ho, hv, listOrNone, if_neg]
  exact fun hn => hp (recorded_eq_nil.mp (List.map_eq_nil_iff.mp hn))

theorem head?_recorded (main : String) (ks : List KeywordStatement) :
    (recorded main ks).head? = (plainOf main ks).head? := by
  unfold recorded
  split
  · rfl
  · cases plainOf main ks <;> rfl

theorem lookup_ppd_first (hw : WellFormed statements) (h : parsePPD statements = some printer)
    (ho : optionsOf main (keywords statements) = []) (hs : (plainOf main (keywords statements)).head? = some s) :
    ∃ v rest, substitute statements s.value = some v ∧ List.lookup main printer.ppd = some (v :: rest) ∧
      ((recorded main (keywords statements)).map (·.value)).mapM (substitute statements) = some (v :: rest) := by
  have hp : plainOf main (keywords statements) ≠ [] := by
    intro hn
    rw [hn] at hs
    cases hs
  obtain ⟨l', hl', hm⟩ := lookup_ppd h (lookup_value_plain hw ho hp)
  rw [← head?_recorded] at hs
  obtain ⟨more, hmr⟩ := List.head?_eq_some_iff.mp hs
  have hc := hm
  rw [hmr, List.map_cons] at hc
  simp only [List.mapM_cons, Option.bind_eq_bind, Option.bind_eq_some_iff, Option.pure_def, Option.some.injEq] at hc
  obtain ⟨v, hv, rest, -, rfl⟩ := hc
  exact ⟨v, rest, hv, hl', hm⟩

theorem ppd_ne (hw : WellFormed statements) (h : parsePPD statements = some printer)
    (hf : Fits statements) {key : String} {l' : List String}
    (hl' : List.lookup key printer.ppd = some l') : l' ≠ [] ∧ l' ≠ [""] := by
  have hlst := listed_load hw.plain
  obtain hk | ⟨main, option, hmn, rfl⟩ := plain_or_optionKey key
  · by_cases ho : optionsOf key (keywords statements) = []
    · cases hs : (plainOf key (keywords statements)).head? with
      | none =>
        have hn := hlst.plain .value key hk ho
        rw [recorded_eq_nil.mpr (List.head?_eq_none_iff.mp hs)] at hn
        cases (lookup_ppd_none h hn).symm.trans hl'
      | some s =>
        obtain ⟨v, rest, hv, hc, -⟩ := lookup_ppd_first hw h ho hs
        obtain rfl := Option.some.inj (hc.symm.trans hl')
        refine ⟨List.cons_ne_nil _ _, fun heq => ?_⟩
        obtain rfl := (List.cons.inj heq).1
        exact hf.first key s ho hs hv
    · obtain ⟨l, hl, -, hlen⟩ := hlst.mixed .value key hk ho
      obtain ⟨l₁, hl₁, hm⟩ := lookup_ppd h hl
      obtain rfl := Option.some.inj (hl₁.symm.trans hl')
      apply ne_of_two_le_length
      rw [mapM_length hm]
      exact hlen rfl
  · cases hs : firstFor main option (keywords statements) with
    | none =>
      have hn := hlst.pair .value main option hmn
      rw [hs] at hn
      cases (lookup_ppd_none h hn).symm.trans hl'
    | some s =>
      obtain ⟨l₁, hl₁, hm⟩ := lookup_ppd h (lookup_value_pair hw hs)
      obtain rfl := Option.some.inj (hl₁.symm.trans hl')
      simp only [List.mapM_cons, List.mapM_nil, Option.bind_eq_bind, Option.bind_eq_some_iff,
        Option.pure_def, Option.some.injEq] at hm
      obtain ⟨v, hv, rest, rfl, rfl⟩ := hm
      refine ⟨List.cons_ne_nil _ _, fun heq => ?_⟩
      obtain rfl := (List.cons.inj heq).1
      exact (hf.pair main option s hs).1 hv

theorem table_ppd (printer : NSPrinter) : printer.table "PPD" = some printer.ppd := rfl

theorem ppd_bind {l : List String} {key : String} (hl : List.lookup key printer.ppd = some l) :
    (printer.table "PPD").bind (List.lookup key) = some l := by
  rw [table_ppd]
  exact hl

theorem translations_eq (h : parsePPD statements = some printer) :
    printer.argumentTranslation = (load statements).argumentTranslation ∧
      printer.optionTranslation = (load statements).optionTranslation ∧
      printer.uiConstraints = (load statements).uiConstraints ∧
      printer.orderDependency = (load statements).orderDependency := by
  rw [(parsePPD_eq h).2]
  exact ⟨rfl, rfl, rfl, rfl⟩

theorem stringForKey_value {key : String} {l : List String} {v : String} {rest : List String}
    (hl : List.lookup key printer.ppd = some l) (hc : l = v :: rest) (hv : some v ≠ some "") :
    printer.stringForKey key "PPD" = .ok (some v) := by
  subst hc
  exact stringForKey_cons (ppd_bind hl) fun h => hv (congrArg some h)

theorem lookup_ppd_pair (hw : WellFormed statements) (h : parsePPD statements = some printer) {main option : String}
    (hs : firstFor main option (keywords statements) = some s) : ∃ v, substitute statements s.value = some v ∧
      List.lookup (optionKey main option) printer.ppd = some [v] := by
  obtain ⟨l', hl', hm⟩ := lookup_ppd h (lookup_value_pair hw hs)
  simp only [List.mapM_cons, List.mapM_nil, Option.bind_eq_bind, Option.bind_eq_some_iff, Option.pure_def,
    Option.some.injEq] at hm
  obtain ⟨v, hv, rest, rfl, rfl⟩ := hm
  exact ⟨v, hv, hl'⟩

theorem lookup_ppd_options (hw : WellFormed statements) (h : parsePPD statements = some printer)
    (hp : plainOf main (keywords statements) = []) (ho : optionsOf main (keywords statements) ≠ []) :
    ∃ l, ((optionsOf main (keywords statements)).eraseDups).mapM (substitute statements) = some l ∧
      List.lookup main printer.ppd = some ("" :: l) := by
  have hmn : Plain main := by
    obtain ⟨s, hs, rfl⟩ := exists_mainKeyword.mpr (.inr ho)
    exact hw.plain s hs
  obtain ⟨l', hl', hm⟩ := lookup_ppd h ((listed_load hw.plain).options .value main hmn hp ho)
  simp only [List.mapM_cons, Option.bind_eq_bind, Option.bind_eq_some_iff, Option.pure_def, Option.some.injEq] at hm
  obtain ⟨mark, hmr, l, hl, rfl⟩ := hm
  obtain rfl : "" = mark := Option.some.inj hmr
  exact ⟨l, hl, hl'⟩

/-! ## Finding -/

theorem Fits.finds (hf : Fits statements) (hw : WellFormed statements)
    (h : parsePPD statements = some printer) : Finds statements printer where
  pair main option s hs := by
    obtain ⟨v, hv, hl⟩ := lookup_ppd_pair hw h hs
    rw [hv]
    exact stringForKey_value hl rfl (hv ▸ (hf.pair main option s hs).1)
  keyword main s hop hs := by
    obtain ⟨v, rest, hv, hl, -⟩ := lookup_ppd_first hw h hop hs
    rw [hv]
    exact stringForKey_value hl rfl (hv ▸ hf.first main s hop hs)
  repeated main hr hop hp := by
    obtain ⟨s, more, hmr⟩ := List.exists_cons_of_ne_nil hp
    have hs : (plainOf main (keywords statements)).head? = some s := by
      rw [hmr]
      rfl
    obtain ⟨v, rest, hv, hl, hm⟩ := lookup_ppd_first hw h hop hs
    have hne : v ≠ "" := by
      rintro rfl
      exact hf.first main s hop hs hv
    rw [recorded, if_pos hr] at hm
    rw [hm, stringListForKey_cons (ppd_bind hl), if_neg hne]
  options main hp hop := by
    obtain ⟨l, hm, hl⟩ := lookup_ppd_options hw h hp hop
    have hsl := mapM_eq_self.mpr fun option hmem =>
      hf.options main hp option (List.mem_eraseDups.mp hmem)
    obtain rfl := Option.some.inj (hm.symm.trans hsl)
    rw [stringListForKey_cons (ppd_bind hl), if_pos rfl]
  total key table := by
    obtain ⟨ha, ho, hu, hord⟩ := translations_eq h
    apply stringForKey_total.mpr
    intro l hl
    unfold NSPrinter.table at hl
    split_ifs at hl
    · exact ppd_ne hw h hf hl
    · rw [ho] at hl
      exact translation_ne hw .optionTranslation (fun main option s hs => (hf.pair main option s hs).2.2)
        (fun main hop => (hf.translations main hop).2) hl
    · rw [ha] at hl
      exact translation_ne hw .argumentTranslation (fun main option s hs => (hf.pair main option s hs).2.1)
        (fun main hop => (hf.translations main hop).1) hl
    · rw [hord] at hl
      exact ne_of_two_le_length ((paired_load statements).2 key l hl)
    · rw [hu] at hl
      exact ne_of_two_le_length ((paired_load statements).1 key l hl)
    · cases hl

theorem Finds.translation_ne (hf : Finds statements printer) {f : Field} {name key : String} {l : List String}
    (hn : printer.table name = some (f.table (load statements)))
    (hl : List.lookup key (f.table (load statements)) = some l) : l ≠ [""] := by
  refine (stringForKey_total.mp (hf.total key name) l ?_).2
  rw [hn]
  exact hl

theorem Finds.fits (hf : Finds statements printer) (hw : WellFormed statements)
    (h : parsePPD statements = some printer) : Fits statements := by
  have hlst := listed_load hw.plain
  obtain ⟨ha, ho, -, -⟩ := translations_eq h
  have ha : printer.table "PPDArgumentTranslation" =
      some (Field.argumentTranslation.table (load statements)) := congrArg some ha
  have ho : printer.table "PPDOptionTranslation" =
      some (Field.optionTranslation.table (load statements)) := congrArg some ho
  have hpr (f : Field) (name : String) (hnm : printer.table name = some (f.table (load statements)))
      {main option : String} {s : KeywordStatement}
      (hs : firstFor main option (keywords statements) = some s) : f.of s ≠ some "" := by
    intro he
    have hmn := hw.plain s (firstFor_eq_some hs).1
    rw [(firstFor_eq_some hs).2.1] at hmn
    have hl := hlst.pair f main option hmn
    rw [hs, Option.bind_some, he] at hl
    exact hf.translation_ne hnm hl rfl
  have hp (f : Field) (name : String) (hnm : printer.table name = some (f.table (load statements)))
      {main : String} (hop : optionsOf main (keywords statements) = []) :
      (recorded main (keywords statements)).filterMap f.of ≠ [""] := by
    intro he
    have hmn : Plain main := by
      have hne : recorded main (keywords statements) ≠ [] := by
        intro hn
        rw [hn] at he
        cases he
      obtain ⟨s, hs, rfl⟩ := exists_mainKeyword.mpr (.inl fun hn => hne (recorded_eq_nil.mpr hn))
      exact hw.plain s hs
    have hl := hlst.plain f main hmn hop
    rw [he] at hl
    exact hf.translation_ne hnm hl rfl
  refine ⟨fun main option s hs => ⟨?_, hpr _ _ ha hs, hpr _ _ ho hs⟩, fun main s hop hs => ?_,
    fun main hop => ⟨hp _ _ ha hop, hp _ _ ho hop⟩, fun main hp option hmem => ?_⟩
  · intro he
    obtain ⟨v, hv, hl⟩ := lookup_ppd_pair hw h hs
    obtain rfl := Option.some.inj (hv.symm.trans he)
    exact (stringForKey_total.mp (hf.total _ "PPD") _ (ppd_bind hl)).2 rfl
  · intro he
    obtain ⟨v, rest, hv, hl, hm⟩ := lookup_ppd_first hw h hop hs
    obtain rfl := Option.some.inj (hv.symm.trans he)
    by_cases hr : main ∈ repKeys
    · -- the list of a repeated keyword is a string short
      have hls := hf.repeated main hr hop (by rintro hn; rw [hn] at hs; cases hs)
      rw [recorded, if_pos hr] at hm
      rw [stringListForKey_cons (ppd_bind hl), if_pos rfl, hm] at hls
      have hlen := congrArg List.length (Option.some.inj (Except.ok.inj hls))
      rw [List.length_cons] at hlen
      exact Nat.succ_ne_self _ hlen.symm
    · have hlen := mapM_length hm
      rw [recorded, if_neg hr, List.length_map, List.length_take] at hlen
      obtain rfl : rest = [] := by
        apply List.eq_nil_of_length_eq_zero
        rw [List.length_cons] at hlen
        omega
      exact (stringForKey_total.mp (hf.total _ "PPD") _ (ppd_bind hl)).2 rfl
  · have hop := List.ne_nil_of_mem hmem
    obtain ⟨l, hm, hl⟩ := lookup_ppd_options hw h hp hop
    have hls := hf.options main hp hop
    rw [stringListForKey_cons (ppd_bind hl), if_pos rfl] at hls
    obtain rfl := Option.some.inj (Except.ok.inj hls)
    exact mapM_eq_self.mp hm option (List.mem_eraseDups.mpr hmem)

/-- The tables give what the statements say exactly where these fit. -/
theorem tables_find (hwf : WellFormed statements) (h : parsePPD statements = some printer) :
    Finds statements printer ↔ Fits statements :=
  ⟨fun hf => hf.fits hwf h, fun hft => hft.finds hwf h⟩

end Parse

/-- PageSize with an option that is repeated, and Product, which may be. -/
def someStatements : List Statement :=
  [.keyword ⟨"PageSize", some "A4", "[]", none, some "DIN A4"⟩, .keyword ⟨"PageSize", some "A4", "()", none, none⟩,
    .keyword ⟨"Product", none, "(A)", none, none⟩, .keyword ⟨"Product", none, "(B)", none, none⟩]

theorem wellFormed_someStatements : WellFormed someStatements :=
  ⟨by simp [someStatements, keywords, Statement.keyword?, Plain],
    by simp [someStatements, keywords, Statement.keyword?]⟩

theorem tables_find_some : ∃ printer, parsePPD someStatements = some printer ∧
    (Finds someStatements printer ↔ Fits someStatements) := by
  obtain ⟨printer, h⟩ := Option.isSome_iff_exists.mp (by decide : (parsePPD someStatements).isSome)
  exact ⟨printer, h, tables_find wellFormed_someStatements h⟩

/-- An empty value is not found, and reading it raises. -/
theorem empty_value_raises : ∃ statements printer, WellFormed statements ∧
    parsePPD statements = some printer ∧ printer.stringForKey "A" "PPD" = .error .rangeException ∧
    ¬Finds statements printer := by
  let statements : List Statement := [.keyword ⟨"A", none, "", none, none⟩]
  have hrs : (load statements).stringForKey "A" "PPD" = .error .rangeException := by
    decide
  refine ⟨statements, load statements, ⟨?_, ?_⟩, by decide, hrs, fun hf => ?_⟩
  · simp [statements, keywords, Statement.keyword?, Plain]
  · simp [statements, keywords, Statement.keyword?]
  · obtain ⟨r, hr, -⟩ := hf.total "A" "PPD"
    rw [hrs] at hr
    cases hr

end NSPrinter

end GnustepGui.Printer
