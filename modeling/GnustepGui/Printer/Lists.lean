import GnustepGui.Printer.Lookup

/-!
# The lists of a load

What `Lookup` says of one statement, over a whole sequence. `Listed` is the invariant: at main/option is
what the first statement for it has (`pair`), at a keyword that has no option the values that are recorded
(`plain`), and at one that occurs only with options an empty string and each of them once (`options`).
-/

namespace GnustepGui.Printer

namespace NSPrinter

open ListTable

/-! ## Keywords -/

def Statement.keyword? : Statement → Option KeywordStatement
  | .keyword s => some s
  | _ => none

def keywords (statements : List Statement) : List KeywordStatement :=
  statements.filterMap Statement.keyword?

/-- The statements of the main keyword without an option. -/
def plainOf (main : String) (ks : List KeywordStatement) : List KeywordStatement :=
  ks.filter fun s => s.mainKeyword = main ∧ s.optionKeyword = none

/-- The options of the main keyword, in order. -/
def optionsOf (main : String) (ks : List KeywordStatement) : List String :=
  ks.filterMap fun s => if s.mainKeyword = main then s.optionKeyword else none

/-- The first statement of the main keyword with the option. -/
def firstFor (main option : String) (ks : List KeywordStatement) : Option KeywordStatement :=
  ks.find? fun s => s.mainKeyword = main ∧ s.optionKeyword = some option

/-- The statements without an option that count: the first one, or all of a repeated keyword. -/
def recorded (main : String) (ks : List KeywordStatement) : List KeywordStatement :=
  if main ∈ repKeys then plainOf main ks else (plainOf main ks).take 1

def listOrNone (l : List String) : Option (List String) :=
  if l = [] then none else some l

theorem mem_optionsOf {main option : String} {ks : List KeywordStatement} :
    option ∈ optionsOf main ks ↔ ∃ s ∈ ks, s.mainKeyword = main ∧ s.optionKeyword = some option := by
  unfold optionsOf
  rw [List.mem_filterMap]
  refine exists_congr fun s => and_congr_right fun _ => ?_
  by_cases h : s.mainKeyword = main <;> simp [h]

theorem firstFor_isSome {main option : String} {ks : List KeywordStatement} :
    (firstFor main option ks).isSome ↔ option ∈ optionsOf main ks := by
  rw [mem_optionsOf, firstFor, List.find?_isSome]
  refine exists_congr fun s => and_congr_right fun _ => ?_
  rw [decide_eq_true_iff]

theorem firstFor_eq_some {main option : String} {ks : List KeywordStatement} {s : KeywordStatement}
    (h : firstFor main option ks = some s) : s ∈ ks ∧ s.mainKeyword = main ∧ s.optionKeyword = some option := by
  unfold firstFor at h
  have hs := List.find?_some h
  exact ⟨List.mem_of_find?_eq_some h, of_decide_eq_true hs⟩

theorem firstFor_append (main option : String) (ks : List KeywordStatement) (s : KeywordStatement) :
    firstFor main option (ks ++ [s]) = (firstFor main option ks).or
      (if s.mainKeyword = main ∧ s.optionKeyword = some option then some s else none) := by
  unfold firstFor
  rw [List.find?_append, List.find?_singleton]
  simp only [decide_eq_true_iff]

theorem optionsOf_append_other {main : String} {s : KeywordStatement} (ks : List KeywordStatement)
    (h : s.mainKeyword = main → s.optionKeyword = none) : optionsOf main (ks ++ [s]) = optionsOf main ks := by
  unfold optionsOf
  rw [List.filterMap_append, List.filterMap_cons, List.filterMap_nil]
  by_cases hm : s.mainKeyword = main
  · rw [if_pos hm, h hm]
    exact List.append_nil _
  · rw [if_neg hm]
    exact List.append_nil _

theorem optionsOf_append_self {option : String} {s : KeywordStatement} (ks : List KeywordStatement)
    (h : s.optionKeyword = some option) :
    optionsOf s.mainKeyword (ks ++ [s]) = optionsOf s.mainKeyword ks ++ [option] := by
  unfold optionsOf
  rw [List.filterMap_append, List.filterMap_cons, List.filterMap_nil, if_pos rfl, h]

theorem plainOf_append_other {main : String} {s : KeywordStatement} (ks : List KeywordStatement)
    (h : ¬(s.mainKeyword = main ∧ s.optionKeyword = none)) : plainOf main (ks ++ [s]) = plainOf main ks := by
  unfold plainOf
  rw [List.filter_append, List.filter_singleton, decide_eq_false h]
  exact List.append_nil _

theorem plainOf_append_self {s : KeywordStatement} (ks : List KeywordStatement) (h : s.optionKeyword = none) :
    plainOf s.mainKeyword (ks ++ [s]) = plainOf s.mainKeyword ks ++ [s] := by
  unfold plainOf
  rw [List.filter_append, List.filter_singleton, decide_eq_true ⟨rfl, h⟩]
  rfl

theorem exists_mainKeyword {main : String} {ks : List KeywordStatement} :
    (∃ s ∈ ks, s.mainKeyword = main) ↔ plainOf main ks ≠ [] ∨ optionsOf main ks ≠ [] := by
  constructor
  · rintro ⟨s, hs, hmn⟩
    cases ho : s.optionKeyword with
    | none =>
      refine .inl (List.ne_nil_of_mem (a := s) ?_)
      exact List.mem_filter.mpr ⟨hs, decide_eq_true ⟨hmn, ho⟩⟩
    | some option => exact .inr (List.ne_nil_of_mem (mem_optionsOf.mpr ⟨s, hs, hmn, ho⟩))
  · rintro (h | h)
    · obtain ⟨s, hs⟩ := List.exists_mem_of_ne_nil _ h
      obtain ⟨hm, hs⟩ := List.mem_filter.mp hs
      exact ⟨s, hm, (of_decide_eq_true hs).1⟩
    · obtain ⟨option, ho⟩ := List.exists_mem_of_ne_nil _ h
      obtain ⟨s, hs, hmn, -⟩ := mem_optionsOf.mp ho
      exact ⟨s, hs, hmn⟩

theorem recorded_eq_nil {main : String} {ks : List KeywordStatement} :
    recorded main ks = [] ↔ plainOf main ks = [] := by
  unfold recorded
  split
  · rfl
  · rw [List.take_eq_nil_iff]
    exact or_iff_right Nat.one_ne_zero

theorem recorded_append_self {s : KeywordStatement} (ks : List KeywordStatement)
    (h : s.optionKeyword = none) :
    recorded s.mainKeyword (ks ++ [s]) =
      if plainOf s.mainKeyword ks ≠ [] ∧ s.mainKeyword ∉ repKeys then recorded s.mainKeyword ks
      else recorded s.mainKeyword ks ++ [s] := by
  unfold recorded
  rw [plainOf_append_self ks h]
  by_cases hr : s.mainKeyword ∈ repKeys
  · rw [if_pos hr, if_pos hr, if_neg (fun hn => hn.2 hr)]
  · rw [if_neg hr, if_neg hr]
    cases plainOf s.mainKeyword ks with
    | nil => simp
    | cons first rest => simp [hr]

/-! ## The invariant -/

/-- What holds initially and is kept by each kind of statement, holds of a load. -/
theorem load_induction {P : List KeywordStatement → NSPrinter → Prop} (he : P [] empty)
    (hk : ∀ ks printer s, P ks printer → P (ks ++ [s]) (printer.addPPDKeyword s))
    (hu : ∀ ks printer a b c, P ks printer → P ks (printer.addPPDUIConstraint a b c))
    (ho : ∀ ks printer a b c, P ks printer → P ks (printer.addPPDOrderDependency a b c))
    (statements : List Statement) : P (keywords statements) (load statements) := by
  induction statements using List.reverseRecOn with
  | nil => exact he
  | append_singleton statements statement ih =>
    have hl : load (statements ++ [statement]) = (load statements).add statement := by
      unfold load
      rw [List.foldl_append]
      rfl
    have hkw : keywords (statements ++ [statement]) = keywords statements ++ statement.keyword?.toList := by
      unfold keywords
      rw [List.filterMap_append]
      cases statement <;> rfl
    rw [hl, hkw]
    cases statement with
    | keyword s => exact hk _ _ s ih
    | uiConstraint a b c =>
      change P (keywords statements ++ []) _
      rw [List.append_nil]
      exact hu _ _ a b c ih
    | orderDependency a b c =>
      change P (keywords statements ++ []) _
      rw [List.append_nil]
      exact ho _ _ a b c ih
    | symbolValue name val =>
      change P (keywords statements ++ []) _
      rw [List.append_nil]
      exact ih

/-- What the three tables hold after the keyword statements. -/
structure Listed (ks : List KeywordStatement) (printer : NSPrinter) : Prop where
  pair : ∀ (f : Field) (main option : String), Plain main →
    List.lookup (optionKey main option) (f.table printer) =
      ((firstFor main option ks).bind f.of).map fun v => [v]
  plain : ∀ (f : Field) (main : String), Plain main → optionsOf main ks = [] →
    List.lookup main (f.table printer) = listOrNone ((recorded main ks).filterMap f.of)
  options : ∀ (f : Field) (main : String), Plain main → plainOf main ks = [] → optionsOf main ks ≠ [] →
    List.lookup main (f.table printer) = some ("" :: (optionsOf main ks).eraseDups)
  mixed : ∀ (f : Field) (main : String), Plain main → optionsOf main ks ≠ [] →
    ∃ l, List.lookup main (f.table printer) = some l ∧ (∃ option ∈ optionsOf main ks, option ∈ l) ∧
      (f = .value → 2 ≤ l.length)

namespace Listed

variable {ks : List KeywordStatement} {printer : NSPrinter} {main option : String}

theorem isKey_pair (h : Listed ks printer) (hm : Plain main) (option : String) :
    printer.isKey (optionKey main option) "PPD" = (firstFor main option ks).isSome := by
  rw [isKey_ppd, h.pair .value main option hm]
  cases firstFor main option ks <;> rfl

theorem isKey_main (h : Listed ks printer) (hm : Plain main) :
    printer.isKey main "PPD" ↔ plainOf main ks ≠ [] ∨ optionsOf main ks ≠ [] := by
  rw [isKey_ppd]
  by_cases ho : optionsOf main ks = []
  · have hv : (recorded main ks).filterMap Field.value.of = (recorded main ks).map (·.value) := by
      rw [← List.filterMap_eq_map]
      rfl
    rw [h.plain .value main hm ho, hv, listOrNone]
    by_cases hp : plainOf main ks = []
    · simp [hp, ho, recorded_eq_nil.mpr hp]
    · rw [if_neg (fun hn => hp (recorded_eq_nil.mp (List.map_eq_nil_iff.mp hn)))]
      exact iff_of_true rfl (.inl hp)
  · obtain ⟨l, hl, -⟩ := h.mixed .value main hm ho
    rw [hl]
    exact iff_of_true rfl (.inr ho)

/-! ## One statement -/

variable {l : List String}

theorem eraseDups_append_of_mem {option : String} (h : option ∈ l) : (l ++ [option]).eraseDups = l.eraseDups := by
  have hr : [option].removeAll l = [] := by simp [List.removeAll, h]
  rw [List.eraseDups_append, hr, List.eraseDups_nil, List.append_nil]

theorem eraseDups_append_of_notMem {option : String} (h : option ∉ l) :
    (l ++ [option]).eraseDups = l.eraseDups ++ [option] := by
  have hr : [option].removeAll l = [option] := by simp [List.removeAll, h]
  rw [List.eraseDups_append, hr]
  rfl

theorem recorded_append_other {s : KeywordStatement} (ks : List KeywordStatement)
    (h : ¬(s.mainKeyword = main ∧ s.optionKeyword = none)) : recorded main (ks ++ [s]) = recorded main ks := by
  unfold recorded
  rw [plainOf_append_other ks h]

theorem of_table {printer' : NSPrinter} (h : Listed ks printer)
    (ht : ∀ f : Field, f.table printer' = f.table printer) : Listed ks printer' where
  pair f := by
    rw [ht]
    exact h.pair f
  plain f := by
    rw [ht]
    exact h.plain f
  options f := by
    rw [ht]
    exact h.options f
  mixed f := by
    rw [ht]
    exact h.mixed f

theorem ne_nil (h : Listed ks printer) (hmn : Plain main) {f : Field}
    (hl : List.lookup main (f.table printer) = some l) : l ≠ [] := by
  by_cases ho : optionsOf main ks = []
  · rw [h.plain f main hmn ho, listOrNone] at hl
    split at hl
    · cases hl
    · obtain rfl := Option.some.inj hl
      assumption
  · obtain ⟨l', hl', ⟨option, -, hm⟩, -⟩ := h.mixed f main hmn ho
    rw [hl'] at hl
    obtain rfl := Option.some.inj hl
    exact List.ne_nil_of_mem hm

section Step

variable {s : KeywordStatement}

theorem pair_step (h : Listed ks printer) (hs : Plain s.mainKeyword) (f : Field) (hm : Plain main) (option : String) :
    List.lookup (optionKey main option) (f.table (printer.addPPDKeyword s)) =
      ((firstFor main option (ks ++ [s])).bind f.of).map fun v => [v] := by
  rw [lookup_addPPDKeyword_pair f hs hm, firstFor_append, h.isKey_pair hm, h.pair f main option hm]
  by_cases hc : s.mainKeyword = main ∧ s.optionKeyword = some option
  · rw [if_pos hc]
    cases hf : firstFor main option ks with
    | none =>
      rw [if_pos ⟨hc.1, hc.2, rfl⟩]
      cases ho : f.of s with
      | none => simp [ho]
      | some v => simp [ho]
    | some first =>
      rw [if_neg (by rintro ⟨-, -, hn⟩; cases hn)]
      rfl
  · rw [if_neg (fun ha => hc ⟨ha.1, ha.2.1⟩), if_neg hc, Option.or_none]

theorem plain_step (h : Listed ks printer) (hs : Plain s.mainKeyword) (f : Field) (hm : Plain main)
    (hop : optionsOf main (ks ++ [s]) = []) : List.lookup main (f.table (printer.addPPDKeyword s)) =
      listOrNone ((recorded main (ks ++ [s])).filterMap f.of) := by
  by_cases heq : main = s.mainKeyword
  · subst heq
    cases ho : s.optionKeyword with
    | some option =>
      rw [optionsOf_append_self ks ho] at hop
      exact absurd hop (List.append_ne_nil_of_right_ne_nil _ (List.cons_ne_nil _ _))
    | none =>
      rw [optionsOf_append_other ks fun _ => ho] at hop
      have hc : (printer.isKey s.mainKeyword "PPD" ∧ s.mainKeyword ∉ repKeys) ↔
          (plainOf s.mainKeyword ks ≠ [] ∧ s.mainKeyword ∉ repKeys) := by
        rw [h.isKey_main hs]
        simp [hop]
      rw [lookup_addPPDKeyword_main_none f ho, recorded_append_self ks ho, if_congr hc rfl rfl, h.plain f _ hs hop]
      split
      · rfl
      · rw [List.filterMap_append, List.filterMap_cons, List.filterMap_nil]
        cases f.of s with
        | none =>
          dsimp only
          rw [List.append_nil]
          rfl
        | some v =>
          have hgt (l : List String) : (listOrNone l).getD [] = l := by
            unfold listOrNone
            split
            · simp [*]
            · rfl
          dsimp only [Option.elim_some]
          rw [hgt, listOrNone, if_neg]
          exact List.append_ne_nil_of_right_ne_nil _ (List.cons_ne_nil _ _)
  · rw [optionsOf_append_other ks fun hm => absurd hm.symm heq] at hop
    rw [lookup_addPPDKeyword_other f hs hm heq, h.plain f main hm hop,
      recorded_append_other ks fun ha => heq ha.1.symm]

theorem options_step (h : Listed ks printer) (hs : Plain s.mainKeyword) (f : Field) (hmn : Plain main)
    (hp : plainOf main (ks ++ [s]) = []) (hop : optionsOf main (ks ++ [s]) ≠ []) :
    List.lookup main (f.table (printer.addPPDKeyword s)) = some ("" :: (optionsOf main (ks ++ [s])).eraseDups) := by
  by_cases heq : main = s.mainKeyword
  · subst heq
    cases ho : s.optionKeyword with
    | none =>
      rw [plainOf_append_self ks ho] at hp
      exact absurd hp (List.append_ne_nil_of_right_ne_nil _ (List.cons_ne_nil _ _))
    | some option =>
      rw [plainOf_append_other ks (by simp [ho])] at hp
      rw [optionsOf_append_self ks ho]
      have hk := h.isKey_pair hs option
      by_cases hm : option ∈ optionsOf s.mainKeyword ks
      · rw [firstFor_isSome.mpr hm] at hk
        rw [addPPDKeyword_known ho hk, eraseDups_append_of_mem hm]
        exact h.options f _ hs hp (List.ne_nil_of_mem hm)
      · rw [Bool.eq_false_iff.mpr (fun hsm => hm (firstFor_isSome.mp hsm))] at hk
        rw [lookup_addPPDKeyword_main_option f hs ho hk, eraseDups_append_of_notMem hm]
        by_cases hn : optionsOf s.mainKeyword ks = []
        · rw [if_neg (by rw [h.isKey_main hs]; simp [hp, hn]), h.plain f _ hs hn,
            recorded_eq_nil.mpr hp, hn]
          rfl
        · rw [if_pos ((h.isKey_main hs).mpr (.inr hn)), h.options f _ hs hp hn]
          rfl
  · rw [plainOf_append_other ks fun ha => heq ha.1.symm] at hp
    rw [optionsOf_append_other ks fun hmn => absurd hmn.symm heq] at hop ⊢
    rw [lookup_addPPDKeyword_other f hs hmn heq]
    exact h.options f main hmn hp hop

theorem mixed_step (h : Listed ks printer) (hs : Plain s.mainKeyword) (f : Field) (hmn : Plain main)
    (hop : optionsOf main (ks ++ [s]) ≠ []) : ∃ l, List.lookup main (f.table (printer.addPPDKeyword s)) = some l ∧
      (∃ option ∈ optionsOf main (ks ++ [s]), option ∈ l) ∧ (f = .value → 2 ≤ l.length) := by
  by_cases heq : main = s.mainKeyword
  · subst heq
    cases hopt : s.optionKeyword with
    | none =>
      rw [optionsOf_append_other ks fun _ => hopt] at hop ⊢
      obtain ⟨l, hl, ⟨option, hm, hin⟩, hlen⟩ := h.mixed f _ hs hop
      rw [lookup_addPPDKeyword_main_none f hopt, hl]
      split
      · exact ⟨l, rfl, ⟨option, hm, hin⟩, hlen⟩
      · cases f.of s with
        | none => exact ⟨l, rfl, ⟨option, hm, hin⟩, hlen⟩
        | some v =>
          refine ⟨l ++ [v], rfl, ⟨option, hm, List.mem_append_left _ hin⟩, fun hf => ?_⟩
          rw [List.length_append]
          exact Nat.le_trans (hlen hf) (Nat.le_add_right _ _)
    | some option =>
      rw [optionsOf_append_self ks hopt]
      have hkn := h.isKey_pair hs option
      by_cases hm : option ∈ optionsOf s.mainKeyword ks
      · rw [firstFor_isSome.mpr hm] at hkn
        rw [addPPDKeyword_known hopt hkn]
        obtain ⟨l, hl, ⟨o, ho, hin⟩, hlen⟩ := h.mixed f _ hs (List.ne_nil_of_mem hm)
        exact ⟨l, hl, ⟨o, List.mem_append_left _ ho, hin⟩, hlen⟩
      · rw [Bool.eq_false_iff.mpr (fun hsm => hm (firstFor_isSome.mp hsm))] at hkn
        rw [lookup_addPPDKeyword_main_option f hs hopt hkn]
        refine ⟨_, rfl, ⟨option, List.mem_append_right _ List.mem_cons_self,
          List.mem_append_right _ List.mem_cons_self⟩, fun hf => ?_⟩
        subst hf
        -- in PPD a keyword that is already there has a value, and another one gets the mark
        rw [List.length_append]
        apply Nat.succ_le_succ
        apply List.length_pos_of_ne_nil
        split
        · rename_i hk
          rw [isKey_ppd] at hk
          obtain ⟨l, hl⟩ := Option.isSome_iff_exists.mp hk
          rw [hl]
          exact h.ne_nil hs hl
        · exact List.append_ne_nil_of_right_ne_nil _ (List.cons_ne_nil _ _)
  · rw [optionsOf_append_other ks fun hmn => absurd hmn.symm heq] at hop ⊢
    rw [lookup_addPPDKeyword_other f hs hmn heq]
    exact h.mixed f main hmn hop

end Step

end Listed

theorem listed_empty : Listed [] empty where
  pair f main option _ := by cases f <;> rfl
  plain f main _ _ := by unfold recorded; cases f <;> split <;> rfl
  options f main _ _ ho := absurd rfl ho
  mixed f main _ ho := absurd rfl ho

theorem listed_load {statements : List Statement} (h : ∀ s ∈ keywords statements, Plain s.mainKeyword) :
    Listed (keywords statements) (load statements) := by
  refine load_induction (P := fun ks printer => (∀ s ∈ ks, Plain s.mainKeyword) → Listed ks printer)
    (fun _ => listed_empty) (fun ks printer s ih hk => ?_) (fun ks printer a b c ih hk => ?_)
    (fun ks printer a b c ih hk => ?_) statements h
  · have hs := hk s (List.mem_append_right _ List.mem_cons_self)
    have ih := ih fun s hs => hk s (List.mem_append_left _ hs)
    exact ⟨fun f _ option hm => ih.pair_step hs f hm option, fun f _ hm ho => ih.plain_step hs f hm ho,
      fun f _ hm hp ho => ih.options_step hs f hm hp ho, fun f _ hm ho => ih.mixed_step hs f hm ho⟩
  · exact (ih hk).of_table fun f => by cases f <;> rfl
  · exact (ih hk).of_table fun f => by cases f <;> rfl

end NSPrinter

end GnustepGui.Printer
