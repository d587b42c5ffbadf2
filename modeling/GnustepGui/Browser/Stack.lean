import GnustepGui.Browser.Browser

/-!
# What a browser shows, column by column

A stack has the loaded columns only, each with its rows and its selected row. In a proper stack every column
shows what the delegate has below the titles selected before it, and a branch is selected in all but the last.
-/

namespace GnustepGui.Browser

/-- The matrices of these settings can be emptied. -/
def Settings.Empties (settings : Settings) : Prop :=
  settings.allowsEmptySelection = true ∨ settings.allowsMultipleSelection = true

instance (settings : Settings) : Decidable settings.Empties :=
  inferInstanceAs (Decidable (_ ∨ _))

/-- The calls that load, select, and take columns away. -/
def Call.Browses : Call → Prop
  | .loadColumnZero | .setLastColumn _ | .selectRow _ _ | .setPath _ | .reloadColumn _ => True
  | _ => False

structure ShownColumn where
  rows : List (Title × Bool)
  selected : Option Nat
  deriving DecidableEq, Repr

namespace ShownColumn

def selectedTitle (column : ShownColumn) : Option Title :=
  (column.selected.bind (column.rows[·]?)).map Prod.fst

def select (column : ShownColumn) (row : Nat) : ShownColumn :=
  { column with selected := some row }

/-- Where the selection is to be kept, emptying it does nothing. -/
def deselect (keeps : Bool) (column : ShownColumn) : ShownColumn :=
  if keeps then column else { column with selected := none }

/-- The first row with this title, and whether it is a leaf. -/
def rowWithTitle (column : ShownColumn) (title : Title) : Option (Nat × Bool) :=
  (column.rows.findIdx? (·.1 = title)).bind fun row => column.rows[row]?.map fun content => (row, content.2)

end ShownColumn

/-- The selected titles up to the first column without. -/
def titles : List ShownColumn → List Title
  | [] => []
  | column :: stack =>
    match column.selectedTitle with
    | none => []
    | some title => title :: titles stack

namespace Stack

variable (delegate : Delegate)

/-- The column that is loaded next. -/
def nextColumn (stack : List ShownColumn) : ShownColumn :=
  ⟨delegate (titles stack), none⟩

def addColumn (stack : List ShownColumn) : List ShownColumn :=
  stack ++ [nextColumn delegate stack]

def selectRow (stack : List ShownColumn) (row column : Nat) : List ShownColumn :=
  match stack[column]? with
  | none => stack
  | some shown =>
    match shown.rows[row]? with
    | none => stack
    | some (_, isLeaf) =>
      let stack := stack.take column ++ [shown.select row]
      if isLeaf then stack else addColumn delegate stack

/-- How many columns are selected as in the path. -/
def matching : List ShownColumn → List Title → Nat
  | column :: stack, title :: path => if column.selectedTitle = some title then matching stack path + 1 else 0
  | _, _ => 0

/-- The titles are selected one below the other, the first one in the last column. -/
def selectTitles : List ShownColumn → ShownColumn → List Title → List ShownColumn × Bool
  | stack, last, [] => (stack ++ [last], true)
  | stack, last, title :: path =>
    match last.rowWithTitle title with
    | none => (stack ++ [last], false)
    | some (row, isLeaf) =>
      if isLeaf then (stack ++ [last.select row], path.isEmpty)
      else
        selectTitles (stack ++ [last.select row]) (nextColumn delegate (stack ++ [last.select row])) path

/-- The titles are selected from a column on. -/
def selectTitlesFrom (stack : List ShownColumn) (column : Nat) (path : List Title) : List ShownColumn × Bool :=
  match stack[column]? with
  | none => (stack, false)
  | some last => selectTitles delegate (stack.take column) last path

def ensureLoaded (stack : List ShownColumn) : List ShownColumn :=
  if stack = [] then addColumn delegate [] else stack

/-- The columns that match are kept, and at least one. -/
def setAbsolutePath (keeps : Bool) (stack : List ShownColumn) (path : List Title) : List ShownColumn × Bool :=
  selectTitlesFrom delegate (stack.modify (matching stack path) (·.deselect keeps)) (matching stack path - 1)
    (path.drop (matching stack path - 1))

def setRelativePath (stack : List ShownColumn) (path : List Title) : List ShownColumn × Bool :=
  selectTitlesFrom delegate stack (stack.length - 1) path

def setPath (settings : Settings) (stack : List ShownColumn) (path : List Char) : List ShownColumn × Bool :=
  let stack := ensureLoaded delegate stack
  let titles := NSBrowser.subStrings settings.pathSeparator path
  if settings.pathSeparator.isPrefixOf path then setAbsolutePath delegate (!settings.Empties) stack titles
  else setRelativePath delegate stack titles

/-- A column that is reloaded becomes the last one; a call that loads no column changes nothing. -/
def perform (settings : Settings) (stack : List ShownColumn) : Call → List ShownColumn
  | .loadColumnZero => addColumn delegate []
  | .addColumn => addColumn delegate stack
  | .setLastColumn column => stack.take (column + 1).toNat
  | .selectRow row column =>
    if row < 0 ∨ column < 0 then stack else selectRow delegate stack row.toNat column.toNat
  | .setPath path => (setPath delegate settings stack path).1
  | .reloadColumn column => if column < 0 then stack else stack.take (column + 1).toNat
  | _ => stack

/-! ## What the delegate has -/

/-- How many of the titles name something below `before`. -/
def named : List Title → List Title → Nat
  | _, [] => 0
  | before, title :: path =>
    match (delegate before).find? (·.1 = title) with
    | none => 0
    | some (_, isLeaf) => if isLeaf then 1 else named (before ++ [title]) path + 1

/-- How many of the titles name something that is not a leaf. -/
def branches : List Title → List Title → Nat
  | _, [] => 0
  | before, title :: path =>
    match (delegate before).find? (·.1 = title) with
    | none => 0
    | some (_, isLeaf) => if isLeaf then 0 else branches (before ++ [title]) path + 1

/-- The columns that titles below `before` load, and below which titles. -/
def loadsBelow (before path : List Title) : List (Nat × List Title) :=
  (List.range (branches delegate before path)).map fun k => (before.length + 1 + k, before ++ path.take (k + 1))

/-- The columns that a path loads. -/
def loadsForPath (settings : Settings) (stack : List ShownColumn) (path : List Char) : List (Nat × List Title) :=
  let stack := ensureLoaded delegate stack
  let path' := NSBrowser.subStrings settings.pathSeparator path
  if settings.pathSeparator.isPrefixOf path then
    loadsBelow delegate (path'.take (matching stack path' - 1)) (path'.drop (matching stack path' - 1))
  else loadsBelow delegate ((titles stack).take (stack.length - 1)) path'

/-- The columns that a call loads, and below which titles. -/
def loads (settings : Settings) (stack : List ShownColumn) : Call → List (Nat × List Title)
  | .loadColumnZero => [(0, [])]
  | .addColumn => [(stack.length, titles stack)]
  | .selectRow row column =>
    if row < 0 ∨ column < 0 then []
    else match stack[column.toNat]?.bind (·.rows[row.toNat]?) with
      | some (title, false) => [(column.toNat + 1, (titles stack).take column.toNat ++ [title])]
      | _ => []
  | .setPath path => (if stack = [] then [(0, [])] else []) ++ loadsForPath delegate settings stack path
  | _ => []

/-- Branches that are selected one below the other, and their titles. -/
inductive Trail : List ShownColumn → List Title → Prop
  | root : Trail [] []
  | branch {stack : List ShownColumn} {before : List Title} {column : ShownColumn} {row : Nat} {title : Title} :
    Trail stack before → column.rows = delegate before → column.selected = some row →
      column.rows[row]? = some (title, false) → Trail (stack ++ [column]) (before ++ [title])

/-- Every column shows what the delegate has below the branches selected before it. -/
inductive Proper : List ShownColumn → Prop
  | empty : Proper []
  | last {stack : List ShownColumn} {before : List Title} {column : ShownColumn} :
    Trail delegate stack before → column.rows = delegate before → Proper (stack ++ [column])

variable {delegate} {stack : List ShownColumn} {column last : ShownColumn} {before path : List Title}

/-! ## Titles -/

theorem titles_singleton (column : ShownColumn) : titles [column] = column.selectedTitle.toList := by
  rw [titles]
  cases column.selectedTitle <;> rfl

theorem titles_append {stack' : List ShownColumn} (h : (titles stack).length = stack.length) :
    titles (stack ++ stack') = titles stack ++ titles stack' := by
  induction stack with
  | nil => rfl
  | cons column stack ih =>
    rw [titles] at h
    rw [List.cons_append, titles, titles]
    cases hc : column.selectedTitle with
    | none =>
      rw [hc] at h
      exact nomatch h
    | some title =>
      rw [hc] at h
      exact congrArg (title :: ·) (ih (Nat.succ.inj h))

variable {title : Title}

theorem selectedTitle_of_row {row : Nat} {isLeaf : Bool} (hs : column.selected = some row)
    (hr : column.rows[row]? = some (title, isLeaf)) : column.selectedTitle = some title := by
  rw [ShownColumn.selectedTitle, hs, Option.bind_some, hr]
  rfl

theorem Trail.titles_eq (htr : Trail delegate stack before) : titles stack = before ∧ before.length = stack.length := by
  induction htr with
  | root => exact ⟨rfl, rfl⟩
  | branch _ _ hs hr ih =>
    obtain ⟨ht, hl⟩ := ih
    refine ⟨?_, by rw [List.length_append, List.length_append, hl]; rfl⟩
    rw [titles_append (by rw [ht, hl]), titles_singleton, selectedTitle_of_row hs hr, ht]
    rfl

theorem Trail.titles_append (htr : Trail delegate stack before) (column : ShownColumn) :
    titles (stack ++ [column]) = before ++ column.selectedTitle.toList := by
  obtain ⟨ht, hl⟩ := htr.titles_eq
  rw [Stack.titles_append (by rw [ht, hl]), ht, titles_singleton]

theorem Trail.take (ht : Trail delegate stack before) (i : Nat) : Trail delegate (stack.take i) (before.take i) := by
  induction ht with
  | root =>
    rw [List.take_nil, List.take_nil]
    exact .root
  | @branch stack before column row title ht hrw hs hr ih =>
    have hl := ht.titles_eq.2
    by_cases hi : i ≤ stack.length
    · rw [List.take_append_of_le_length hi, List.take_append_of_le_length (hl ▸ hi)]
      exact ih
    · rw [List.take_of_length_le (by rw [List.length_append]; exact Nat.not_le.mp hi),
        List.take_of_length_le (by rw [List.length_append, hl]; exact Nat.not_le.mp hi)]
      exact ht.branch hrw hs hr

variable {i : Nat}

/-- What a column of a trail shows, and the branch selected in it. -/
theorem Trail.getElem? (ht : Trail delegate stack before) (hc : stack[i]? = some column) :
    column.rows = delegate (before.take i) ∧ ∃ row title, column.selected = some row ∧
      column.rows[row]? = some (title, false) ∧ before[i]? = some title := by
  induction ht with
  | root => exact nomatch hc
  | @branch stack before column' row title ht hrw hs hr ih =>
    have hl := ht.titles_eq.2
    by_cases hi : i < stack.length
    · rw [List.getElem?_append_left hi] at hc
      rw [List.take_append_of_le_length (by omega), List.getElem?_append_left (by omega)]
      exact ih hc
    · have hlt := (List.getElem?_eq_some_iff.mp hc).1
      rw [List.length_append, List.length_singleton] at hlt
      obtain rfl : i = stack.length := by omega
      rw [List.getElem?_concat_length] at hc
      obtain rfl := Option.some.inj hc
      refine ⟨?_, row, title, hs, hr, ?_⟩
      · rw [← hl, List.take_left]
        exact hrw
      · rw [← hl, List.getElem?_concat_length]

/-! ## Selecting titles -/

theorem rowWithTitle_eq_some {row : Nat} {isLeaf : Bool} (h : column.rowWithTitle title = some (row, isLeaf)) :
    column.rows[row]? = some (title, isLeaf) ∧ column.rows.find? (·.1 = title) = some (title, isLeaf) := by
  rw [ShownColumn.rowWithTitle, Option.bind_eq_some_iff] at h
  obtain ⟨i, hi, hr⟩ := h
  rw [Option.map_eq_some_iff] at hr
  obtain ⟨content, hg, heq⟩ := hr
  obtain ⟨rfl, rfl⟩ := Prod.mk.inj heq
  obtain ⟨hlt, ht, hf⟩ := List.findIdx?_eq_some_iff_getElem.mp hi
  obtain ⟨_, hg'⟩ := List.getElem?_eq_some_iff.mp hg
  have ht : content.1 = title := by
    rw [hg'] at ht
    exact of_decide_eq_true ht
  subst ht
  refine ⟨hg, ?_⟩
  rw [List.find?_eq_some_iff_getElem]
  exact ⟨decide_eq_true rfl, i, hlt, hg', fun j hj => by rw [Bool.not_eq_true']; exact Bool.not_eq_true _ ▸ hf j hj⟩

theorem rowWithTitle_map_fst (column : ShownColumn) (title : Title) :
    (column.rowWithTitle title).map Prod.fst = column.rows.findIdx? (·.1 = title) := by
  rw [ShownColumn.rowWithTitle]
  cases hf : column.rows.findIdx? (·.1 = title) with
  | none => rfl
  | some row =>
    have hlt := (List.findIdx?_eq_some_iff_getElem.mp hf).1
    rw [Option.bind_some, List.getElem?_eq_getElem hlt]
    rfl

theorem rowWithTitle_eq_none (h : column.rowWithTitle title = none) : column.rows.find? (·.1 = title) = none := by
  have hn := rowWithTitle_map_fst column title
  rw [h, Option.map_none] at hn
  rw [List.find?_eq_none]
  intro content hc ht
  exact Bool.false_ne_true ((List.findIdx?_eq_none_iff.mp hn.symm content hc).symm.trans ht)

theorem selectTitles_spec (ht : Trail delegate stack before) (hrw : last.rows = delegate before)
    (path : List Title) :
    Proper delegate (selectTitles delegate stack last path).1 ∧
      ((selectTitles delegate stack last path).2 = true ↔ named delegate before path = path.length) ∧
      (selectTitles delegate stack last path).1.length = stack.length + 1 + branches delegate before path ∧
      titles (selectTitles delegate stack last path).1 =
        if named delegate before path = 0 then before ++ last.selectedTitle.toList
        else before ++ path.take (named delegate before path) := by
  induction path generalizing stack before last with
  | nil =>
    refine ⟨.last ht hrw, ⟨fun _ => rfl, fun _ => rfl⟩, by rw [selectTitles, List.length_append]; rfl, ?_⟩
    rw [selectTitles, ht.titles_append, named, if_pos rfl]
  | cons title path ih =>
    cases hf : last.rowWithTitle title with
    | none =>
      have hn := rowWithTitle_eq_none hf
      rw [hrw] at hn
      rw [selectTitles, named, branches]
      simp only [hf, hn]
      refine ⟨.last ht hrw, ⟨nofun, nofun⟩, by rw [List.length_append]; rfl, ?_⟩
      rw [if_pos trivial, ht.titles_append]
    | some found =>
      obtain ⟨row, isLeaf⟩ := found
      obtain ⟨hr, hfn⟩ := rowWithTitle_eq_some hf
      have hs : (last.select row).selectedTitle = some title := selectedTitle_of_row rfl hr
      rw [hrw] at hfn
      cases isLeaf with
      | true =>
        rw [selectTitles, named, branches]
        simp only [hf, hfn, if_true]
        refine ⟨.last ht hrw, ?_, by rw [List.length_append]; rfl, ?_⟩
        · rw [List.isEmpty_iff_length_eq_zero, List.length_cons]
          omega
        · rw [if_neg Nat.one_ne_zero, ht.titles_append, hs]
          rfl
      | false =>
        have ht' : Trail delegate (stack ++ [last.select row]) (before ++ [title]) := ht.branch hrw rfl hr
        have hnx : (nextColumn delegate (stack ++ [last.select row])).rows = delegate (before ++ [title]) := by
          rw [nextColumn, ht'.titles_eq.1]
        obtain ⟨hp, hy, hl, htt⟩ := ih ht' hnx
        rw [selectTitles, named, branches]
        simp only [hf, hfn, Bool.false_eq_true, if_false]
        refine ⟨hp, ?_, ?_, ?_⟩
        · rw [hy, List.length_cons]
          omega
        · rw [hl, List.length_append, List.length_singleton]
          omega
        · rw [htt, if_neg (Nat.succ_ne_zero _), List.take_succ_cons]
          split
          · rename_i hz
            rw [hz, List.take_zero]
            exact List.append_nil _
          · rw [List.append_assoc]
            rfl

/-! ## Stacks that are proper -/

theorem Proper.getElem? (hp : Proper delegate stack) (hc : stack[i]? = some column) :
    Trail delegate (stack.take i) ((titles stack).take i) ∧ column.rows = delegate ((titles stack).take i) := by
  cases hp with
  | empty => exact nomatch hc
  | @last stack before last ht hr =>
    have hl := ht.titles_eq.2
    have hlt := (List.getElem?_eq_some_iff.mp hc).1
    rw [List.length_append, List.length_singleton] at hlt
    rw [ht.titles_append, List.take_append_of_le_length (by omega), List.take_append_of_le_length (by omega)]
    refine ⟨ht.take i, ?_⟩
    by_cases hi : i < stack.length
    · rw [List.getElem?_append_left hi] at hc
      exact (ht.getElem? hc).1
    · obtain rfl : i = stack.length := by omega
      rw [List.getElem?_concat_length] at hc
      obtain rfl := Option.some.inj hc
      rw [← hl, List.take_length]
      exact hr

theorem Proper.take (hp : Proper delegate stack) (i : Nat) : Proper delegate (stack.take i) := by
  by_cases hi : i < stack.length
  · cases i with
    | zero => exact .empty
    | succ i =>
      have hc : stack[i]? = some stack[i] := List.getElem?_eq_getElem (by omega)
      obtain ⟨ht, hr⟩ := hp.getElem? hc
      rw [List.take_add_one, hc]
      exact .last ht hr
  · rwa [List.take_of_length_le (Nat.not_lt.mp hi)]

theorem addColumn_empty_proper : Proper delegate (addColumn delegate []) := .last .root rfl

theorem ensureLoaded_proper (hp : Proper delegate stack) : Proper delegate (ensureLoaded delegate stack) := by
  rw [ensureLoaded]
  split
  · exact addColumn_empty_proper
  · exact hp

theorem ensureLoaded_ne_nil : ensureLoaded delegate stack ≠ [] := by
  rw [ensureLoaded]
  split
  · exact List.cons_ne_nil _ _
  · rename_i hne
    exact hne

theorem selectRow_proper (hp : Proper delegate stack) (row i : Nat) :
    Proper delegate (selectRow delegate stack row i) := by
  rw [selectRow]
  cases hc : stack[i]? with
  | none => exact hp
  | some shown =>
    dsimp only
    cases hr : shown.rows[row]? with
    | none => exact hp
    | some content =>
      obtain ⟨title, isLeaf⟩ := content
      obtain ⟨ht, hrw⟩ := hp.getElem? hc
      cases isLeaf with
      | true => exact .last ht hrw
      | false =>
        have ht' : Trail delegate (stack.take i ++ [shown.select row]) ((titles stack).take i ++ [title]) :=
          ht.branch hrw rfl hr
        refine .last ht' ?_
        rw [nextColumn, ht'.titles_eq.1]

/-! ## Paths -/

theorem matching_le (stack : List ShownColumn) (path : List Title) :
    matching stack path ≤ stack.length ∧ matching stack path ≤ path.length := by
  induction stack generalizing path with
  | nil => exact ⟨Nat.zero_le _, Nat.zero_le _⟩
  | cons column stack ih =>
    cases path with
    | nil => exact ⟨Nat.zero_le _, Nat.zero_le _⟩
    | cons title path =>
      obtain ⟨hs, hp⟩ := ih path
      rw [matching, List.length_cons, List.length_cons]
      split <;> omega

theorem titles_take_matching (stack : List ShownColumn) (path : List Title) :
    (titles stack).take (matching stack path) = path.take (matching stack path) := by
  induction stack generalizing path with
  | nil => rfl
  | cons column stack ih =>
    cases path with
    | nil => rfl
    | cons title path =>
      rw [matching]
      split
      · rename_i hs
        rw [titles, hs, List.take_succ_cons, List.take_succ_cons, ih]
      · rfl

theorem matching_getElem? {stack : List ShownColumn} {path : List Title} (hi : i < matching stack path) :
    ∃ column title, stack[i]? = some column ∧ column.selectedTitle = some title ∧ path[i]? = some title := by
  induction stack generalizing path i with
  | nil => exact absurd hi (Nat.not_lt_zero _)
  | cons column stack ih =>
    cases path with
    | nil => exact absurd hi (Nat.not_lt_zero _)
    | cons title path =>
      rw [matching] at hi
      split at hi
      · rename_i hs
        cases i with
        | zero => exact ⟨column, title, rfl, hs, rfl⟩
        | succ i => exact ih (Nat.lt_of_succ_lt_succ hi)
      · exact absurd hi (Nat.not_lt_zero _)

theorem named_pos_of_selected (hrw : column.rows = delegate before)
    (hs : column.selectedTitle = some title) (path : List Title) : 0 < named delegate before (title :: path) := by
  rw [ShownColumn.selectedTitle, Option.map_eq_some_iff] at hs
  obtain ⟨content, hc, rfl⟩ := hs
  obtain ⟨row, -, hr⟩ := Option.bind_eq_some_iff.mp hc
  rw [hrw] at hr
  rw [named]
  cases hf : (delegate before).find? (·.1 = content.1) with
  | none => exact absurd (decide_eq_true rfl) (List.find?_eq_none.mp hf _ (List.mem_of_getElem? hr))
  | some found =>
    dsimp only
    split <;> omega

theorem named_le (delegate : Delegate) (before path : List Title) : named delegate before path ≤ path.length := by
  induction path generalizing before with
  | nil => exact Nat.le_refl 0
  | cons title path ih =>
    rw [named, List.length_cons]
    cases (delegate before).find? (·.1 = title) with
    | none => exact Nat.zero_le _
    | some content =>
      dsimp only
      split
      · exact Nat.succ_le_succ (Nat.zero_le _)
      · exact Nat.succ_le_succ (ih _)

variable (delegate) in
theorem setAbsolutePath_kept (hpr : Proper delegate stack) (hne : stack ≠ []) (keeps : Bool) (path : List Title) :
    let kept := matching stack path - 1
    let after := stack.modify (matching stack path) (·.deselect keeps)
    ∃ last, after[kept]? = some last ∧ Trail delegate (after.take kept) (path.take kept) ∧
      last.rows = delegate (path.take kept) ∧
      (keeps = false → last.selectedTitle ≠ none → 0 < matching stack path ∧ stack[kept]? = some last) := by
  intro kept after
  obtain ⟨hst, hpt⟩ := matching_le stack path
  have hlt : kept < stack.length := by
    have hp := List.length_pos_of_ne_nil hne
    omega
  obtain ⟨column, hc⟩ : ∃ column, stack[kept]? = some column := ⟨_, List.getElem?_eq_getElem hlt⟩
  obtain ⟨htr, hr⟩ := hpr.getElem? hc
  have hb : (titles stack).take kept = path.take kept := by
    have ht := congrArg (List.take kept) (titles_take_matching stack path)
    rwa [List.take_take, List.take_take, min_eq_left (by omega)] at ht
  rw [hb] at htr hr
  have ht : after.take kept = stack.take kept := by
    rw [List.take_modify, List.modify_eq_self]
    rw [List.length_take]
    omega
  rw [ht, List.getElem?_modify, hc]
  refine ⟨_, rfl, htr, ?_, fun hk hs => ?_⟩
  · split
    · rw [← hr]
      cases keeps <;> rfl
    · exact hr
  · split at hs
    · rw [hk] at hs
      exact absurd rfl hs
    · rename_i hother
      exact ⟨by omega, congrArg some (if_neg hother).symm⟩

theorem setAbsolutePath_eq {keeps : Bool} (hl : (stack.modify (matching stack path) (·.deselect keeps))[
      matching stack path - 1]? = some last) : setAbsolutePath delegate keeps stack path =
      selectTitles delegate ((stack.modify (matching stack path) (·.deselect keeps)).take (matching stack path - 1)) last
        (path.drop (matching stack path - 1)) := by
  rw [setAbsolutePath, selectTitlesFrom, hl]

variable (delegate) in
theorem setAbsolutePath_spec (hpr : Proper delegate stack) (hne : stack ≠ []) (keeps : Bool) (path : List Title) :
    let kept := matching stack path - 1
    let after := setAbsolutePath delegate keeps stack path
    Proper delegate after.1 ∧
      (after.2 = true ↔ named delegate (path.take kept) (path.drop kept) = (path.drop kept).length) ∧
      (keeps = false → titles after.1 = path.take (kept + named delegate (path.take kept) (path.drop kept))) := by
  intro kept after
  obtain ⟨last, hl, htr, hr, ht⟩ := setAbsolutePath_kept delegate hpr hne keeps path
  obtain ⟨hpr', hy, -, htt⟩ := selectTitles_spec htr hr (path.drop kept)
  rw [← setAbsolutePath_eq hl] at hpr' hy htt
  refine ⟨hpr', hy, fun hk => htt.trans ?_⟩
  split
  · rename_i hz
    have hnn : last.selectedTitle = none := by
      by_contra hsm
      obtain ⟨hp, hc⟩ := ht hk hsm
      obtain ⟨column, title, hc', hs, hf⟩ := matching_getElem? (show kept < matching stack path by omega)
      obtain rfl := Option.some.inj (hc.symm.trans hc')
      have hd : path.drop kept = title :: path.drop (kept + 1) := by
        obtain ⟨hlt, rfl⟩ := List.getElem?_eq_some_iff.mp hf
        exact List.drop_eq_getElem_cons hlt
      have hn := named_pos_of_selected hr hs (path.drop (kept + 1))
      rw [hd] at hz
      omega
    rw [hz, hnn]
    exact List.append_nil _
  · rw [List.take_add]

theorem setRelativePath_last (hpr : Proper delegate stack) (hne : stack ≠ []) : ∃ last,
    stack[stack.length - 1]? = some last ∧
      Trail delegate (stack.take (stack.length - 1)) ((titles stack).take (stack.length - 1)) ∧
      last.rows = delegate ((titles stack).take (stack.length - 1)) := by
  have hp := List.length_pos_of_ne_nil hne
  obtain ⟨last, hl⟩ : ∃ last, stack[stack.length - 1]? = some last := ⟨_, List.getElem?_eq_getElem (by omega)⟩
  exact ⟨last, hl, hpr.getElem? hl⟩

theorem setRelativePath_eq (hl : stack[stack.length - 1]? = some last) : setRelativePath delegate stack path =
    selectTitles delegate (stack.take (stack.length - 1)) last path := by
  rw [setRelativePath, selectTitlesFrom, hl]

theorem loadsBelow_pos {loaded : Nat × List Title} (h : loaded ∈ loadsBelow delegate before path) : 0 < loaded.1 := by
  obtain ⟨k, -, rfl⟩ := List.mem_map.mp h
  dsimp only
  omega

theorem loadsForPath_pos {settings : Settings} {path : List Char} {loaded : Nat × List Title}
    (h : loaded ∈ loadsForPath delegate settings stack path) : 0 < loaded.1 := by
  unfold loadsForPath at h
  dsimp only at h
  split at h
  · exact loadsBelow_pos h
  · exact loadsBelow_pos h

theorem setPath_proper (settings : Settings) (hp : Proper delegate stack) (path : List Char) :
    Proper delegate (setPath delegate settings stack path).1 := by
  have hl := ensureLoaded_proper hp
  have hne : ensureLoaded delegate stack ≠ [] := ensureLoaded_ne_nil
  unfold setPath
  dsimp only
  split
  · exact (setAbsolutePath_spec delegate hl hne _ _).1
  · obtain ⟨last, hls, ht, hr⟩ := setRelativePath_last hl hne
    rw [setRelativePath_eq hls]
    exact (selectTitles_spec ht hr _).1

theorem perform_proper (settings : Settings) {call : Call} (hc : call.Browses) (hp : Proper delegate stack) :
    Proper delegate (perform delegate settings stack call) := by
  cases call with
  | loadColumnZero => exact addColumn_empty_proper
  | setLastColumn column => exact hp.take _
  | selectRow row column =>
    rw [perform]
    split
    · exact hp
    · exact selectRow_proper hp _ _
  | setPath path => exact setPath_proper settings hp path
  | reloadColumn column =>
    rw [perform]
    split
    · exact hp
    · exact hp.take _
  | addColumn => exact hc.elim
  | scrollColumnsLeftBy shiftAmount => exact hc.elim
  | scrollColumnsRightBy shiftAmount => exact hc.elim
  | scrollColumnToVisible column => exact hc.elim
  | setMaxVisibleColumns columnCount => exact hc.elim
  | setFrameWidth frameWidth => exact hc.elim

end Stack

end GnustepGui.Browser
