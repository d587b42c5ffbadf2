import GnustepGui.Printer.Tables

/-!
# What the PPD tables hold

The lists of the tables PPD, PPDArgumentTranslation and PPDOptionTranslation after a sequence of
statements. A keyword adds to the three in the same way, so that they are described together, for
a `Field` of the statement: the list at main/option is that of the first statement for it (`lookup_pair`),
and the list at a main keyword depends on whether it occurs with options (`lookup_main`).
-/

namespace GnustepGui.Printer

open ListTable

namespace NSPrinter

/-- A keyword has no slash, which separates it from an option. -/
def Plain (key : String) : Prop :=
  '/' ∉ key.toList

/-! ## Keys -/

theorem toList_optionKey (main option : String) :
    (optionKey main option).toList = main.toList ++ '/' :: option.toList := by
  unfold optionKey
  rw [String.toList_append, String.toList_append]
  simp

theorem optionKey_ne {main : String} (hm : Plain main) (main' option : String) : main ≠ optionKey main' option := by
  intro heq
  apply hm
  rw [heq, toList_optionKey]
  exact List.mem_append_right _ List.mem_cons_self

theorem optionKey_inj {main main' option option' : String} (h : Plain main) (h' : Plain main') :
    optionKey main option = optionKey main' option' ↔ main = main' ∧ option = option' := by
  constructor
  · intro heq
    have hlis := congrArg String.toList heq
    rw [toList_optionKey, toList_optionKey, List.append_eq_append_iff] at hlis
    -- what one keyword is longer by would begin with the slash
    obtain ⟨l, hl, hr⟩ | ⟨l, hl, hr⟩ := hlis <;> cases l with
    | nil =>
      obtain ⟨-, ho⟩ := List.cons.inj hr
      rw [List.append_nil] at hl
      exact ⟨String.toList_inj.mp (by rw [hl]), String.toList_inj.mp (by rw [ho])⟩
    | cons c l =>
      obtain ⟨rfl, -⟩ := List.cons.inj hr
      exact absurd (hl ▸ List.mem_append_right _ List.mem_cons_self) (by assumption)
  · rintro ⟨rfl, rfl⟩
    rfl

theorem plain_or_optionKey (key : String) : Plain key ∨ ∃ main option, Plain main ∧ key = optionKey main option := by
  by_cases h : '/' ∈ key.toList
  · obtain ⟨l, r, hk, hl⟩ := List.eq_append_cons_of_mem h
    refine .inr ⟨String.ofList l, String.ofList r, ?_, ?_⟩
    · unfold Plain
      rwa [String.toList_ofList]
    · apply String.toList_inj.mp
      rw [toList_optionKey, String.toList_ofList, String.toList_ofList, hk]
  · exact .inl h

/-! ## Fields -/

inductive Field where
  | value
  | argumentTranslation
  | optionTranslation
  deriving DecidableEq, Repr

namespace Field

/-- What a statement has for the table of the field. -/
def of (f : Field) (s : KeywordStatement) : Option String :=
  match f with
  | value => some s.value
  | argumentTranslation => s.valueTranslation
  | optionTranslation => s.optionTranslation

def table (f : Field) (printer : NSPrinter) : ListTable String String :=
  match f with
  | value => printer.ppd
  | argumentTranslation => printer.argumentTranslation
  | optionTranslation => printer.optionTranslation

theorem table_addValue (f : Field) (printer : NSPrinter) (s : KeywordStatement) (key : String) :
    f.table (printer.addValue s.value s.valueTranslation s.optionTranslation key) =
      addTranslation (f.of s) key (f.table printer) := by
  cases f <;> rfl

theorem table_addValue_option (f : Field) (printer : NSPrinter) (option key : String) :
    f.table (printer.addValue option (some option) (some option) key) = ListTable.add option key (f.table printer) := by
  cases f <;> rfl

theorem table_addMark (f : Field) (printer : NSPrinter) (key : String) :
    f.table (printer.addMark key) = ListTable.add "" key (f.table printer) := by
  cases f <;> rfl

end Field

theorem lookup_addTranslation_self (translation : Option String) (key : String) (t : ListTable String String) :
    List.lookup key (addTranslation translation key t) =
      translation.elim (List.lookup key t) fun s => some ((List.lookup key t).getD [] ++ [s]) := by
  cases translation with
  | none => rfl
  | some s => exact lookup_add_self s key t

theorem lookup_addTranslation_ne {key key' : String} (h : key' ≠ key) (translation : Option String)
    (t : ListTable String String) : List.lookup key' (addTranslation translation key t) = List.lookup key' t := by
  cases translation with
  | none => rfl
  | some s => exact lookup_add_ne h s t

theorem isKey_ppd (printer : NSPrinter) (key : String) :
    printer.isKey key "PPD" = (List.lookup key (Field.value.table printer)).isSome := rfl

/-! ## One statement -/

section Step

variable {printer : NSPrinter} {s : KeywordStatement} {main option : String}

theorem addPPDKeyword_known (h : s.optionKeyword = some option)
    (hk : printer.isKey (optionKey s.mainKeyword option) "PPD") : printer.addPPDKeyword s = printer := by
  unfold addPPDKeyword
  rw [h]
  exact if_pos hk

/-- A new option has its value at main/option, and its name in the list of the main keyword. -/
theorem table_addPPDKeyword_option (f : Field) (hm : Plain s.mainKeyword)
    (h : s.optionKeyword = some option) (hk : printer.isKey (optionKey s.mainKeyword option) "PPD" = false) :
    f.table (printer.addPPDKeyword s) =
      .add option s.mainKeyword
        (if printer.isKey s.mainKeyword "PPD" then
          addTranslation (f.of s) (optionKey s.mainKeyword option) (f.table printer)
        else
          .add "" s.mainKeyword
            (addTranslation (f.of s) (optionKey s.mainKeyword option) (f.table printer))) := by
  have hmr : (printer.addValue s.value s.valueTranslation s.optionTranslation
      (optionKey s.mainKeyword option)).isKey s.mainKeyword "PPD" = printer.isKey s.mainKeyword "PPD" := by
    rw [isKey_ppd, isKey_ppd, Field.table_addValue, lookup_addTranslation_ne (optionKey_ne hm _ _)]
  unfold addPPDKeyword
  rw [h]
  dsimp only
  rw [hk, if_neg Bool.false_ne_true, Field.table_addValue_option, hmr]
  split
  · rw [Field.table_addValue]
  · rw [Field.table_addMark, Field.table_addValue]

theorem table_addPPDKeyword_none (f : Field) (h : s.optionKeyword = none) :
    f.table (printer.addPPDKeyword s) =
      if printer.isKey s.mainKeyword "PPD" ∧ s.mainKeyword ∉ repKeys then f.table printer
      else addTranslation (f.of s) s.mainKeyword (f.table printer) := by
  unfold addPPDKeyword
  rw [h]
  dsimp only
  split
  · rfl
  · rw [Field.table_addValue]

theorem lookup_addPPDKeyword_pair (f : Field) (hs : Plain s.mainKeyword) (hm : Plain main) :
    List.lookup (optionKey main option) (f.table (printer.addPPDKeyword s)) =
      if s.mainKeyword = main ∧ s.optionKeyword = some option ∧
          printer.isKey (optionKey main option) "PPD" = false then
        (f.of s).elim (List.lookup (optionKey main option) (f.table printer)) fun v =>
          some ((List.lookup (optionKey main option) (f.table printer)).getD [] ++ [v])
      else List.lookup (optionKey main option) (f.table printer) := by
  have hne := optionKey_ne hs main option
  cases ho : s.optionKeyword with
  | none =>
    rw [if_neg (by rintro ⟨-, hnn, -⟩; cases hnn), table_addPPDKeyword_none f ho]
    split
    · rfl
    · exact lookup_addTranslation_ne hne.symm _ _
  | some o =>
    by_cases hk : printer.isKey (optionKey s.mainKeyword o) "PPD"
    · rw [addPPDKeyword_known ho hk, if_neg]
      rintro ⟨rfl, heq, hn⟩
      rw [Option.some.inj heq, hn] at hk
      exact Bool.false_ne_true hk
    · rw [Bool.not_eq_true] at hk
      have ha : List.lookup (optionKey main option) (f.table (printer.addPPDKeyword s)) =
          List.lookup (optionKey main option)
            (addTranslation (f.of s) (optionKey s.mainKeyword o) (f.table printer)) := by
        rw [table_addPPDKeyword_option f hs ho hk, lookup_add_ne hne.symm]
        split
        · rfl
        · rw [lookup_add_ne hne.symm]
      rw [ha]
      by_cases hp : s.mainKeyword = main ∧ o = option
      · obtain ⟨rfl, rfl⟩ := hp
        rw [if_pos ⟨rfl, rfl, hk⟩, lookup_addTranslation_self]
      · rw [if_neg (fun h => hp ⟨h.1, Option.some.inj h.2.1⟩), lookup_addTranslation_ne]
        rw [Ne, optionKey_inj hm hs]
        rintro ⟨rfl, rfl⟩
        exact hp ⟨rfl, rfl⟩

theorem lookup_addPPDKeyword_other (f : Field) (hs : Plain s.mainKeyword) (hm : Plain main)
    (hne : main ≠ s.mainKeyword) :
    List.lookup main (f.table (printer.addPPDKeyword s)) = List.lookup main (f.table printer) := by
  cases ho : s.optionKeyword with
  | none =>
    rw [table_addPPDKeyword_none f ho]
    split
    · rfl
    · exact lookup_addTranslation_ne hne _ _
  | some o =>
    by_cases hk : printer.isKey (optionKey s.mainKeyword o) "PPD"
    · rw [addPPDKeyword_known ho hk]
    · rw [Bool.not_eq_true] at hk
      rw [table_addPPDKeyword_option f hs ho hk, lookup_add_ne hne]
      split
      · rw [lookup_addTranslation_ne (optionKey_ne hm _ _)]
      · rw [lookup_add_ne hne, lookup_addTranslation_ne (optionKey_ne hm _ _)]

theorem lookup_addPPDKeyword_main_option (f : Field) (hs : Plain s.mainKeyword)
    (h : s.optionKeyword = some option) (hk : printer.isKey (optionKey s.mainKeyword option) "PPD" = false) :
    List.lookup s.mainKeyword (f.table (printer.addPPDKeyword s)) =
      some ((if printer.isKey s.mainKeyword "PPD" then (List.lookup s.mainKeyword (f.table printer)).getD []
        else (List.lookup s.mainKeyword (f.table printer)).getD [] ++ [""]) ++ [option]) := by
  rw [table_addPPDKeyword_option f hs h hk, lookup_add_self]
  split
  · rw [lookup_addTranslation_ne (optionKey_ne hs _ _)]
  · rw [lookup_add_self, lookup_addTranslation_ne (optionKey_ne hs _ _)]
    rfl

theorem lookup_addPPDKeyword_main_none (f : Field) (h : s.optionKeyword = none) :
    List.lookup s.mainKeyword (f.table (printer.addPPDKeyword s)) =
      if printer.isKey s.mainKeyword "PPD" ∧ s.mainKeyword ∉ repKeys then
        List.lookup s.mainKeyword (f.table printer)
      else
        (f.of s).elim (List.lookup s.mainKeyword (f.table printer)) fun v =>
          some ((List.lookup s.mainKeyword (f.table printer)).getD [] ++ [v]) := by
  rw [table_addPPDKeyword_none f h]
  split
  · rfl
  · exact lookup_addTranslation_self _ _ _

end Step

end NSPrinter

end GnustepGui.Printer
