import GnustepGui.Browser.Path

/-!
# Columns that are reused

A browser that reuses its columns looks like one that makes new ones where every call fits (`reuse_alike`).
Without reuse a column that is reloaded has new cells, among which no selected cell is found. With it, a radio
matrix that does not allow an empty selection keeps its old selection when it is renewed.
-/

namespace GnustepGui.Browser

/-- What can be seen of a matrix: its rows, the selected ones, and the one that the selected cell is in. -/
def NSMatrix.shown (matrix : NSMatrix) : List (Title × Bool) × List Nat × Option Nat :=
  (matrix.contents, matrix.selectedRows, matrix.selectedRow)

theorem NSMatrix.Shows.shown {matrix : NSMatrix} {rows : List (Title × Bool)} {selected : Option Nat}
    (hs : matrix.Shows rows selected) : matrix.shown = (rows, selected.toList, selected) := by
  rw [NSMatrix.shown, hs.contents, hs.selectedRows, hs.selectedRow]

def Settings.reusing (settings : Settings) (reusesColumns : Bool) : Settings :=
  { settings with reusesColumns }

namespace NSBrowser

/-- A column that is not loaded shows nothing. -/
def shownColumn (browser : NSBrowser) (column : Nat) : ShownColumn :=
  match browser.matrixInColumn column with
  | some (some matrix) => ⟨matrix.contents, matrix.selectedRow⟩
  | _ => ⟨[], none⟩

def stack (browser : NSBrowser) : List ShownColumn :=
  (List.range (browser.lastColumnLoaded + 1).toNat).map browser.shownColumn

/-- The columns that the call loads are like new ones, and nothing is selected in a column that it reloads. -/
def Fits (settings : Settings) (delegate : Delegate) (browser : NSBrowser) (call : Call) : Prop :=
  CanLoad settings delegate browser (Stack.loads delegate settings browser.stack call) ∧
    ∀ column matrix, call = .reloadColumn column → browser.matrixInColumn column = some (some matrix) →
      matrix.selectedRow = none

/-- Every call of a run fits. -/
def AllFit (settings : Settings) (delegate : Delegate) : NSBrowser → List Call → Prop
  | _, [] => True
  | browser, call :: calls =>
    Fits settings delegate browser call ∧
      ∀ next, call.perform settings delegate browser = some next → AllFit settings delegate next calls

/-- The same loaded columns with the same rows and selected rows, and the same path. -/
structure Alike (settings : Settings) (browser other : NSBrowser) : Prop where
  lastColumnLoaded : browser.lastColumnLoaded = other.lastColumnLoaded
  matrixInColumn : ∀ column, (browser.matrixInColumn column).map (·.map NSMatrix.shown) =
    (other.matrixInColumn column).map (·.map NSMatrix.shown)
  path : browser.path settings = other.path settings

/-- Where a call to reload the column fits, it keeps the selected rows. -/
def KeepsReloaded (settings : Settings) (delegate : Delegate) (browser : NSBrowser) (column : Int) : Prop :=
  ∃ after, browser.reloadColumn settings delegate column = some after ∧
    (after.matrixInColumn column).map (·.map NSMatrix.shown) =
      (browser.matrixInColumn column).map (·.map NSMatrix.shown)

variable {settings : Settings} {delegate : Delegate} {browser other : NSBrowser} {stack : List ShownColumn}

/-! ## What is shown -/

theorem Represents.stack_eq (h : Represents browser stack) : browser.stack = stack := by
  refine List.ext_getElem? fun i => ?_
  rw [NSBrowser.stack, h.lastColumnLoaded, Int.toNat_natCast, List.getElem?_map]
  cases hs : stack[i]? with
  | none =>
    rw [List.getElem?_eq_none (by rw [List.length_range]; exact List.getElem?_eq_none_iff.mp hs)]
    rfl
  | some shown =>
    obtain ⟨matrix, hm, -, hsh⟩ := h.matrixInColumn hs
    rw [List.getElem?_range (List.getElem?_eq_some_iff.mp hs).1, Option.map_some, shownColumn, hm]
    dsimp only
    rw [hsh.contents, hsh.selectedRow]

theorem Represents.shown (h : Represents browser stack) (column : Int) :
    (browser.matrixInColumn column).map (·.map NSMatrix.shown) =
      some (if column < 0 then none
        else stack[column.toNat]?.map fun shown => (shown.rows, shown.selected.toList, shown.selected)) := by
  split
  · rename_i hn
    rw [matrixInColumn_other (.inl hn)]
    rfl
  · rename_i hnn
    obtain ⟨i, rfl⟩ := Int.eq_ofNat_of_zero_le (not_lt.mp hnn)
    rw [Int.toNat_natCast]
    cases hs : stack[i]? with
    | none =>
      rw [h.matrixInColumn_eq_none hs]
      rfl
    | some shown =>
      obtain ⟨matrix, hm, -, hsh⟩ := h.matrixInColumn hs
      rw [hm, Option.map_some, Option.map_some, hsh.shown]
      rfl

theorem Represents.alike (h : Represents browser stack) (h' : Represents other stack) (settings : Settings) :
    Alike settings browser other where
  lastColumnLoaded := by
    have hl := h.lastColumnLoaded
    have hl' := h'.lastColumnLoaded
    omega
  matrixInColumn := fun column => by rw [h.shown, h'.shown]
  path := by rw [h.path, h'.path]

/-! ## Runs -/

theorem keepsReloaded_of_fits (h : Represents browser stack) (hs : Sound browser) (hr : Ready settings browser)
    (hp : Stack.Proper delegate stack) {column : Int}
    (hsel : ∀ shown, 0 ≤ column → stack[column.toNat]? = some shown → shown.selected = none) :
    KeepsReloaded settings delegate browser column := by
  obtain ⟨after, ha, -, -, hrep⟩ := reloadColumn_represents settings h hs hr hp column hsel
  refine ⟨after, ha, ?_⟩
  rw [hrep.shown, h.shown]
  split
  · rfl
  · rename_i hn
    rw [Stack.perform, if_neg hn, List.getElem?_take_of_lt (by omega)]

theorem Fits.unselected {column : Int} (h : Represents browser stack)
    (hf : Fits settings delegate browser (.reloadColumn column)) (shown : ShownColumn) (hn : 0 ≤ column)
    (hs : stack[column.toNat]? = some shown) : shown.selected = none := by
  obtain ⟨matrix, hm, -, hsh⟩ := h.matrixInColumn hs
  rw [Int.toNat_of_nonneg hn] at hm
  rw [← hsh.selectedRow]
  exact hf.2 column matrix rfl hm

/-- Both browsers show the same stack after every call that fits. -/
theorem run_represents {reusing fresh : NSBrowser} {calls : List Call} (hb : ∀ call ∈ calls, call.Browses)
    (h : Represents reusing stack) (hs : Sound reusing) (hr : Ready (settings.reusing true) reusing)
    (h' : Represents fresh stack) (hs' : Sound fresh) (hr' : Ready (settings.reusing false) fresh)
    (hp : Stack.Proper delegate stack) (hfit : AllFit (settings.reusing true) delegate reusing calls) :
    ∃ stack', Stack.Proper delegate stack' ∧
      LeadsTo (settings.reusing true) (run (settings.reusing true) reusing (calls.map (Step.mk delegate))) stack' ∧
      LeadsTo (settings.reusing false) (run (settings.reusing false) fresh (calls.map (Step.mk delegate))) stack' := by
  induction calls generalizing reusing fresh stack with
  | nil => exact ⟨stack, hp, ⟨reusing, rfl, hs, hr, h⟩, ⟨fresh, rfl, hs', hr', h'⟩⟩
  | cons call calls ih =>
    have hc := hb call List.mem_cons_self
    obtain ⟨hft, hrs⟩ := hfit
    have hsel (column : Int) (shown : ShownColumn) (hrel : call = .reloadColumn column) :=
      Fits.unselected h (hrel ▸ hft) shown
    have hl := hft.1
    rw [h.stack_eq] at hl
    obtain ⟨next, hn, hs₁, hr₁, h₁⟩ := perform_represents (settings.reusing true) delegate hc h hs hr
      hp hl hsel
    obtain ⟨next', hn', hs₂, hr₂, h₂⟩ := perform_represents (settings.reusing false) delegate hc h' hs'
      hr' hp (fun _ _ _ _ => .inl rfl) hsel
    have hsm : Stack.perform delegate (settings.reusing false) stack call =
        Stack.perform delegate (settings.reusing true) stack call := by
      cases call <;> rfl
    rw [hsm] at h₂
    obtain ⟨stack', hp', ⟨after, ha, hf⟩, after', ha', hf'⟩ := ih
      (fun call hm => hb call (List.mem_cons_of_mem _ hm)) h₁ hs₁ hr₁ h₂ hs₂ hr₂
      (Stack.perform_proper _ hc hp) (hrs next hn)
    refine ⟨stack', hp', ⟨after, ?_, hf⟩, after', ?_, hf'⟩
    · rw [List.map_cons, run, List.foldlM_cons, hn]
      exact ha
    · rw [List.map_cons, run, List.foldlM_cons, hn']
      exact ha'

end NSBrowser

open NSBrowser

variable {delegate : Delegate}

/-- Where every call of a run fits, a browser that reuses its columns has the same loaded columns as one that does
not, with the same rows selected in each, and the same path; a column that is reloaded keeps its selected rows. -/
theorem reuse_alike (settings : Settings) (frameWidth : ℚ) {calls : List Call}
    (hbrowses : ∀ call ∈ calls, call.Browses)
    (hfit : AllFit (settings.reusing true) delegate (initWithFrame frameWidth) calls) :
    ∃ reusing fresh,
      run (settings.reusing true) (initWithFrame frameWidth) (calls.map (Step.mk delegate)) = some reusing ∧
      run (settings.reusing false) (initWithFrame frameWidth) (calls.map (Step.mk delegate)) = some fresh ∧
      Alike settings reusing fresh ∧
      ∀ column, Fits (settings.reusing true) delegate reusing (.reloadColumn column) →
        KeepsReloaded (settings.reusing true) delegate reusing column ∧
          KeepsReloaded (settings.reusing false) delegate fresh column := by
  have hn := initWithFrame_represents frameWidth
  have hs := initWithFrame_sound frameWidth
  obtain ⟨stack, hp, ⟨reusing, hrs, hs₁, hr₁, h₁⟩, fresh, hf, hs₂, hr₂, h₂⟩ :=
    run_represents hbrowses hn hs (.inr ⟨rfl, rfl, rfl⟩) hn hs (.inr ⟨rfl, rfl, rfl⟩) .empty hfit
  refine ⟨reusing, fresh, hrs, hf, h₁.alike h₂ settings, fun column hft => ?_⟩
  have hsel := Fits.unselected h₁ hft
  exact ⟨keepsReloaded_of_fits h₁ hs₁ hr₁ hp hsel,
    keepsReloaded_of_fits h₂ hs₂ hr₂ hp hsel⟩

variable (delegate) in
theorem allFit_of_empties {settings : Settings} (he : settings.Empties) {browser : NSBrowser} {calls : List Call}
    (hr : ∀ column, .reloadColumn column ∉ calls) : AllFit settings delegate browser calls := by
  induction calls generalizing browser with
  | nil => trivial
  | cons call calls ih =>
    refine ⟨⟨canLoad_of_empties he _, fun column _ hc _ => ?_⟩, fun _ _ => ih fun column hm => ?_⟩
    · exact absurd (hc ▸ List.mem_cons_self) (hr column)
    · exact hr column (List.mem_cons_of_mem _ hm)

/-- A leaf is selected, the first column loaded again, and another leaf selected. -/
theorem reuse_alike_reselecting : ∃ reusing fresh,
    run ((someSettings true).reusing true) (initWithFrame 300) ([.loadColumnZero, .selectRow 1 0, .loadColumnZero,
      .setPath ['/', 'a', '/', 'b']].map (Step.mk (serve someNodes))) = some reusing ∧
    run ((someSettings true).reusing false) (initWithFrame 300) ([.loadColumnZero, .selectRow 1 0, .loadColumnZero,
      .setPath ['/', 'a', '/', 'b']].map (Step.mk (serve someNodes))) = some fresh ∧
    Alike (someSettings true) reusing fresh := by
  have hb : ∀ call ∈ [Call.loadColumnZero, .selectRow 1 0, .loadColumnZero, .setPath ['/', 'a', '/', 'b']],
      call.Browses := by
    simp only [List.mem_cons, List.not_mem_nil, or_false, forall_eq_or_imp, forall_eq, Call.Browses, and_self]
  obtain ⟨reusing, fresh, hr, hf, ha, -⟩ := reuse_alike (someSettings true) 300 hb
    (allFit_of_empties (serve someNodes) (.inl rfl) (by simp))
  exact ⟨reusing, fresh, hr, hf, ha⟩

/-- Columns that may be narrow, in which several rows may be selected. -/
def narrowSettings : Settings :=
  { someSettings true with minColumnWidth := 0 }

/-- A leaf stays selected where the column is reused, and does not where it is not. -/
theorem reload_loses_selection :
    let shown (reuses : Bool) := (run (narrowSettings.reusing reuses) (initWithFrame 300)
      ([.loadColumnZero, .selectRow 1 0, .reloadColumn 0].map (Step.mk (serve someNodes)))).bind fun browser =>
        (browser.matrixInColumn 0).map (·.map NSMatrix.selectedRows)
    shown true = some (some [1]) ∧ shown false = some (some []) := by
  decide

end GnustepGui.Browser
