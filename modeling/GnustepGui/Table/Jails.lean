import GnustepGui.Library.InPlace

/-!
# The jails of a table

The views of a `GSTable` sit in jails, one for each row and column, which lie row after row in a flat array. A new
column makes every row longer, and the jails of the rows after the first move up in the array that they are in.
-/

namespace GnustepGui.Table

open InPlace

/-- What a `GSTable` has for its jails, with arrays that have the size that the numbers say. -/
structure Jails (View : Type*) where
  numberOfRows : Nat
  numberOfColumns : Nat
  jails : Vector (Option View) (numberOfRows * numberOfColumns)
  havePrisoner : Vector Bool (numberOfRows * numberOfColumns)

/-- What `malloc` has left in new memory is arbitrary. -/
def realloc {α : Type*} {n : Nat} (xs : Vector α n) (m : Nat) (junk : Nat → α) : Vector α m :=
  Vector.ofFn fun k : Fin m => (xs[k.val]?).getD (junk k)

/-- The assignments of `addColumn` for row `j`, in their order; `columns` is the new number. -/
def rowMoves (columns j : Nat) : List Move :=
  ⟨columns * (j + 1) - 1, none⟩ ::
    (List.range (columns - 1)).reverse.map fun i => ⟨columns * j + i, some ((columns - 1) * j + i)⟩

/-- Those for all rows, from the last one to the first. -/
def reorderMoves (rows columns : Nat) : List Move := (List.range rows).reverse.flatMap (rowMoves columns)

namespace Jails

variable {View : Type*}

def jail (t : Jails View) (row column : Nat) : Option (Option View) := t.jails[row * t.numberOfColumns + column]?

def prisoner (t : Jails View) (row column : Nat) : Option Bool := t.havePrisoner[row * t.numberOfColumns + column]?

/-- What `addColumn` does with the jails; nothing where it leaves the arrays. -/
def addColumn (t : Jails View) (newJails : Nat → Option View) (newPrisoners : Nat → Bool) : Option (Jails View) :=
  let columns := t.numberOfColumns + 1
  let havePrisoner := realloc t.havePrisoner (t.numberOfRows * columns) newPrisoners
  let jails := realloc t.jails (t.numberOfRows * columns) newJails
  match run none jails (reorderMoves t.numberOfRows columns),
    run false havePrisoner (reorderMoves t.numberOfRows columns) with
  | some jails, some havePrisoner => some ⟨t.numberOfRows, columns, jails, havePrisoner⟩
  | _, _ => none

end Jails

section Moves

variable {rows columns : Nat}

theorem mem_rowMoves {j : Nat} {m : Move} : m ∈ rowMoves (columns + 1) j ↔ m = ⟨(columns + 1) * j + columns, none⟩ ∨
      ∃ i < columns, m = ⟨(columns + 1) * j + i, some (columns * j + i)⟩ := by
  have he : (columns + 1) * (j + 1) - 1 = (columns + 1) * j + columns := by rw [Nat.mul_add_one]; rfl
  rw [rowMoves, he, Nat.add_sub_cancel, List.mem_cons, List.mem_map]
  refine or_congr Iff.rfl (exists_congr fun i => ?_)
  rw [List.mem_reverse, List.mem_range]
  exact and_congr_right fun _ => eq_comm

theorem mem_reorderMoves {m : Move} :
    m ∈ reorderMoves rows (columns + 1) ↔ ∃ j < rows, m ∈ rowMoves (columns + 1) j := by
  simp only [reorderMoves, List.mem_flatMap, List.mem_reverse, List.mem_range]

/-- The moves of a row write the cells of that row and read none further up. -/
theorem bounds_of_mem_rowMoves {j : Nat} {m : Move} (hm : m ∈ rowMoves (columns + 1) j) :
    (columns + 1) * j ≤ m.dest ∧ m.dest < (columns + 1) * (j + 1) ∧ ∀ k ∈ m.source, k ≤ m.dest := by
  have hn : (columns + 1) * (j + 1) = (columns + 1) * j + (columns + 1) := Nat.mul_add_one _ _
  rcases mem_rowMoves.mp hm with rfl | ⟨i, hi, rfl⟩
  · refine ⟨Nat.le_add_right _ _, by dsimp only; omega, ?_⟩
    intro k hk
    cases hk
  · refine ⟨Nat.le_add_right _ _, by dsimp only; omega, ?_⟩
    intro k hk
    cases hk
    exact Nat.add_le_add_right (Nat.mul_le_mul_right j columns.le_succ) i

theorem rowMoves_apart (j : Nat) : (rowMoves (columns + 1) j).Pairwise Apart := by
  have he : (columns + 1) * (j + 1) - 1 = (columns + 1) * j + columns := by rw [Nat.mul_add_one]; rfl
  have hr : columns * j ≤ (columns + 1) * j := Nat.mul_le_mul_right j columns.le_succ
  rw [rowMoves, he, Nat.add_sub_cancel]
  refine List.pairwise_cons.mpr ⟨?_, ?_⟩
  · intro m hm
    obtain ⟨i, hi, rfl⟩ := List.mem_map.mp hm
    have hi : i < columns := List.mem_range.mp (List.mem_reverse.mp hi)
    refine ⟨by dsimp only; omega, fun heq => ?_⟩
    have heq : columns * j + i = (columns + 1) * j + columns := Option.some.inj heq
    omega
  · refine List.pairwise_map.mpr (List.pairwise_reverse.mpr (List.pairwise_lt_range.imp ?_))
    intro i i' hlt
    refine ⟨by dsimp only; omega, fun heq => ?_⟩
    have heq : columns * j + i = (columns + 1) * j + i' := Option.some.inj heq
    omega

/-- Rows further down are written first, and what they are written with lies below them. -/
theorem reorderMoves_apart : (reorderMoves rows (columns + 1)).Pairwise Apart := by
  refine List.pairwise_flatMap.mpr ⟨fun j _ => rowMoves_apart j, ?_⟩
  refine List.pairwise_reverse.mpr (List.pairwise_lt_range.imp ?_)
  intro j j' hlt first hf later hlt'
  obtain ⟨hlo, -, -⟩ := bounds_of_mem_rowMoves hf
  obtain ⟨-, hhi, hs⟩ := bounds_of_mem_rowMoves hlt'
  have hr : (columns + 1) * (j + 1) ≤ (columns + 1) * j' := Nat.mul_le_mul_left _ hlt
  refine ⟨by omega, fun heq => ?_⟩
  have := hs first.dest heq
  omega

theorem reorderMoves_fits {m : Move} (hm : m ∈ reorderMoves rows (columns + 1)) : m.Fits (rows * (columns + 1)) := by
  obtain ⟨j, hj, hm⟩ := mem_reorderMoves.mp hm
  obtain ⟨-, hhi, hs⟩ := bounds_of_mem_rowMoves hm
  have hr : (columns + 1) * (j + 1) ≤ (columns + 1) * rows := Nat.mul_le_mul_left _ hj
  rw [Nat.mul_comm rows]
  refine ⟨by omega, fun k hk => ?_⟩
  have := hs k hk
  omega

end Moves

theorem realloc_getElem? {α : Type*} {n m : Nat} {xs : Vector α n} {junk : Nat → α} {k : Nat} (hn : k < n) (hm : k < m) :
    (realloc xs m junk)[k]? = xs[k]? := by
  rw [Vector.getElem?_eq_getElem hm, Vector.getElem?_eq_getElem hn, realloc, Vector.getElem_ofFn,
    Vector.getElem?_eq_getElem hn, Option.getD_some]

/-- Each row has what it had, followed by an empty cell. -/
theorem run_reorderMoves {α : Type*} {rows columns : Nat} (empty : α) (xs : Vector α (rows * columns)) (junk : Nat → α) :
    ∃ ys, run empty (realloc xs (rows * (columns + 1)) junk) (reorderMoves rows (columns + 1)) = some ys ∧
      ∀ row < rows, (∀ column < columns, ys[row * (columns + 1) + column]? = xs[row * columns + column]?) ∧
        ys[row * (columns + 1) + columns]? = some empty := by
  obtain ⟨ys, hrun, hw, -⟩ := run_eq empty (realloc xs (rows * (columns + 1)) junk) reorderMoves_apart
    fun m hm => reorderMoves_fits hm
  refine ⟨ys, hrun, fun row hr => ⟨fun column hc => ?_, ?_⟩⟩
  · have hmem : ⟨(columns + 1) * row + column, some (columns * row + column)⟩ ∈ reorderMoves rows (columns + 1) :=
      mem_reorderMoves.mpr ⟨row, hr, mem_rowMoves.mpr (.inr ⟨column, hc, rfl⟩)⟩
    have hn : row * columns + column < rows * columns := by
      have := Nat.mul_le_mul_right columns (Nat.succ_le_of_lt hr)
      rw [Nat.succ_mul] at this
      omega
    have hm : row * columns + column < rows * (columns + 1) :=
      Nat.lt_of_lt_of_le hn (Nat.mul_le_mul_left rows columns.le_succ)
    have hv := hw _ hmem
    rw [Nat.mul_comm (columns + 1), Nat.mul_comm columns] at hv
    exact hv.trans (realloc_getElem? hn hm)
  · have hmem : ⟨(columns + 1) * row + columns, none⟩ ∈ reorderMoves rows (columns + 1) :=
      mem_reorderMoves.mpr ⟨row, hr, mem_rowMoves.mpr (.inl rfl)⟩
    have hv := hw _ hmem
    rw [Nat.mul_comm (columns + 1)] at hv
    exact hv

/-- The jails and the prisoners of the old columns are where they were, the new column is empty, and no assignment
writes what a later one reads or writes. -/
theorem addColumn_jails {View : Type*} (t : Jails View) (newJails : Nat → Option View) (newPrisoners : Nat → Bool) :
    (reorderMoves t.numberOfRows (t.numberOfColumns + 1)).Pairwise Apart ∧
    ∃ t', t.addColumn newJails newPrisoners = some t' ∧
      t'.numberOfRows = t.numberOfRows ∧ t'.numberOfColumns = t.numberOfColumns + 1 ∧
      ∀ row < t.numberOfRows,
        (∀ column < t.numberOfColumns,
          t'.jail row column = t.jail row column ∧ t'.prisoner row column = t.prisoner row column) ∧
        t'.jail row t.numberOfColumns = some none ∧ t'.prisoner row t.numberOfColumns = some false := by
  obtain ⟨jails, hj, hjl⟩ := run_reorderMoves none t.jails newJails
  obtain ⟨havePrisoner, hp, hprs⟩ := run_reorderMoves false t.havePrisoner newPrisoners
  refine ⟨reorderMoves_apart, ⟨t.numberOfRows, t.numberOfColumns + 1, jails, havePrisoner⟩, ?_, rfl, rfl, ?_⟩
  · rw [Jails.addColumn]
    simp only [hj, hp]
  · intro row hr
    obtain ⟨ho, hn⟩ := hjl row hr
    obtain ⟨ho', hn'⟩ := hprs row hr
    exact ⟨fun column hc => ⟨ho column hc, ho' column hc⟩, hn, hn'⟩

end GnustepGui.Table
