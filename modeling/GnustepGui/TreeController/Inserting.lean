import GnustepGui.TreeController.Controller

/-!
# Inserting by index path

An inserted object goes behind the last child of its parent, and one inserted at the top is lost when
the proxy is made anew. The object is found at its path exactly when the path names the place behind
the last child of a node (`inserts_iff`), and a list of objects when each of its paths does so in turn
(`insertsAll_iff`).
-/

namespace GnustepGui.TreeController

open Forests

variable {O : Type} [DecidableEq O]

namespace NSTreeController

/-- The content array and the arrays of children. -/
def arrays (tc : NSTreeController O) : Arrays O
  | none => some tc.content
  | some node => tc.children node

/-- The content is a tree, which the proxy shows. -/
structure IsTree (tc : NSTreeController O) : Prop extends IsForest tc.arrays where
  arranged : tc.arrangedObjects = some tc.content

def Fresh (tc : NSTreeController O) (object : O) : Prop :=
  ∀ s l, tc.arrays s = some l → object ∉ l

/-- The controller with some objects taken out of every array. -/
def keeping (tc : NSTreeController O) (keep : O → Bool) : NSTreeController O :=
  { tc with
    content := tc.content.filter keep
    arrangedObjects := tc.arrangedObjects.map (·.filter keep)
    children := fun node => (tc.children node).map (·.filter keep) }

/-- The object is found at the path, and without it every array is what it was. -/
structure Inserts (tc : NSTreeController O) (object : O) (path : List Nat) (tc' : NSTreeController O) :
    Prop where
  tree : tc'.IsTree
  found : tc'.objectAtIndexPath path = .ok (some object)
  others : tc'.keeping (· ≠ object) = tc

/-- Each object in turn is inserted at its path. -/
def InsertsAll (tc : NSTreeController O) : List (O × List Nat) → NSTreeController O → Prop
  | [], tc' => tc' = tc
  | (object, path) :: pairs, tc' => ∃ mid, Inserts tc object path mid ∧ InsertsAll mid pairs tc'

/-- The path names the place behind the last child of a node that has an array of children. -/
def Appends (tc : NSTreeController O) (path : List Nat) : Prop :=
  tc.canAddChild = true ∧ tc.countKeyPath = none ∧
    ∃ q node l, path = q ++ [l.length] ∧ walk tc.arrays none q = some (some node) ∧
      tc.children node = some l

/-- The tree with the object put at the path, below the top. -/
def inserted (tc : NSTreeController O) (object : O) (path : List Nat) : NSTreeController O :=
  match walk tc.arrays none path.dropLast, path.getLast? with
  | some (some node), some i =>
    { tc with
      children := Function.update tc.children node ((tc.children node).map (·.insertIdx i object)) }
  | _, _ => tc

/-- Each path in turn names the place behind a last child. -/
def AppendsAll (tc : NSTreeController O) : List (O × List Nat) → Prop
  | [] => True
  | (object, path) :: pairs => tc.Appends path ∧ AppendsAll (tc.inserted object path) pairs

end NSTreeController

open NSTreeController

variable {tc tc' : NSTreeController O} {object : O} {q path : List Nat}

/-! ## Following a path -/

/-- Where the loop over a path ends, in a controller whose proxy shows the content. -/
inductive EndsAt (tc : NSTreeController O) (q : List Nat) : Except Exception (Children O) → Prop where
  | top : q = [] → EndsAt tc q (.ok .childNodes)
  | node {o : O} : walk tc.arrays none q = some (some o) → EndsAt tc q (.ok (.ofNode o))
  | null : walk tc.arrays none q = none → EndsAt tc q (.ok .null)
  | raises : walk tc.arrays none q = none → EndsAt tc q (.error .rangeException)

section

omit [DecidableEq O]

theorem walk_eq_none_append {p : List Nat} (h : walk tc.arrays none q = none) :
    walk tc.arrays none (q ++ p) = none := by
  rw [Option.eq_none_iff_forall_ne_some]
  intro t ht
  obtain ⟨u, hu, -⟩ := walk_append.1 ht
  rw [h] at hu
  exact nomatch hu

theorem endsAt (ha : tc.arrangedObjects = some tc.content) (q : List Nat) :
    EndsAt tc q (q.foldlM tc.descend .childNodes) := by
  induction q using List.reverseRecOn with
  | nil => exact .top rfl
  | append_singleton q i ih =>
    rw [List.foldlM_append]
    -- the array at which the loop stands before the last turn
    have htr (children : Children O) (s : Option O) (hs : walk tc.arrays none q = some s)
        (har : tc.array children = tc.arrays s) : EndsAt tc (q ++ [i]) ([i].foldlM tc.descend children) := by
      rw [List.foldlM_cons]
      simp only [List.foldlM_nil, bind_pure]
      unfold NSTreeController.descend
      rw [har]
      cases hl : tc.arrays s with
      | none =>
        refine .null ?_
        rw [Option.eq_none_iff_forall_ne_some]
        intro t ht
        obtain ⟨u, l, x, hu, hl', -, -⟩ := walk_concat.1 ht
        obtain rfl := Option.some.inj (hs.symm.trans hu)
        rw [hl] at hl'
        exact nomatch hl'
      | some l =>
        cases hx : l[i]? with
        | none =>
          simp only [hx]
          refine .raises ?_
          rw [Option.eq_none_iff_forall_ne_some]
          intro t ht
          obtain ⟨u, l', x, hu, hl', hx', -⟩ := walk_concat.1 ht
          obtain rfl := Option.some.inj (hs.symm.trans hu)
          obtain rfl := Option.some.inj (hl.symm.trans hl')
          rw [hx] at hx'
          exact nomatch hx'
        | some x =>
          simp only [hx]
          exact .node (walk_concat.2 ⟨s, l, x, hs, hl, hx, rfl⟩)
    generalize q.foldlM tc.descend .childNodes = r at ih
    cases ih with
    | top hq =>
      subst hq
      exact htr .childNodes none rfl ha
    | node hq => exact htr (.ofNode _) _ hq rfl
    | null hq => exact .null (walk_eq_none_append hq)
    | raises hq => exact .raises (walk_eq_none_append hq)

theorem childrenAt_concat (i : Nat) : tc.childrenAt (q ++ [i]) = q.foldlM tc.descend .childNodes := by
  rw [NSTreeController.childrenAt, List.dropLast_concat]

end

theorem lastIndex_concat (q : List Nat) (i : Nat) : lastIndex (q ++ [i]) = .ok i := by
  rw [lastIndex, List.getLast?_concat]

omit [DecidableEq O] in
theorem rearrangeObjects_eq (ha : tc.arrangedObjects = some tc.content) : tc.rearrangeObjects = tc := by
  rw [rearrangeObjects, ← ha]

theorem rearrange_setArray_childNodes (ha : tc.arrangedObjects = some tc.content) (l : List O) :
    (tc.setArray l .childNodes).rearrangeObjects = tc := by
  simp only [setArray, rearrangeObjects]
  rw [← ha]

theorem rearrange_setArray_ofNode (ha : tc.arrangedObjects = some tc.content) (l : List O) (node : O) :
    (tc.setArray l (.ofNode node)).rearrangeObjects =
      { tc with children := Function.update tc.children node (some l) } := by
  simp only [setArray, rearrangeObjects]
  rw [← ha]

omit [DecidableEq O] in
/-- `_objectAtIndexPath:` finds the node that the path leads to. -/
theorem objectAtIndexPath_eq (ha : tc.arrangedObjects = some tc.content) {x : O} :
    tc.objectAtIndexPath path = .ok (some x) ↔ walk tc.arrays none path = some (some x) := by
  rcases List.eq_nil_or_concat path with rfl | ⟨q, i, rfl⟩
  · constructor <;> intro h <;> cases h
  rw [List.concat_eq_append, walk_concat, NSTreeController.objectAtIndexPath, lastIndex_concat, childrenAt_concat]
  have he : (∃ children s, q.foldlM tc.descend .childNodes = .ok children ∧ walk tc.arrays none q = some s ∧
        tc.array children = tc.arrays s) ∨ walk tc.arrays none q = none ∧ (q.foldlM tc.descend .childNodes = .ok .null ∨
        q.foldlM tc.descend .childNodes = .error .rangeException) := by
    have he := endsAt ha q
    generalize q.foldlM tc.descend .childNodes = r at he ⊢
    cases he with
    | top hq =>
      subst hq
      exact .inl ⟨.childNodes, none, rfl, rfl, ha⟩
    | node hq => exact .inl ⟨_, _, rfl, hq, rfl⟩
    | null hq => exact .inr ⟨hq, .inl rfl⟩
    | raises hq => exact .inr ⟨hq, .inr rfl⟩
  obtain ⟨children, s, hr, hs, har⟩ | ⟨hq, hr⟩ := he
  · rw [hr]
    dsimp only [bind, Except.bind]
    rw [har]
    constructor
    · intro h
      cases hl : tc.arrays s with
      | none =>
        rw [hl] at h
        cases h
      | some l =>
        cases hy : l[i]? with
        | none =>
          simp only [hl, hy] at h
          cases h
        | some y =>
          simp only [hl, hy] at h
          exact ⟨s, l, y, hs, hl, hy, Except.ok.inj h |>.symm⟩
    · rintro ⟨u, l, y, hu, hl, hy, heq⟩
      obtain rfl := Option.some.inj (hs.symm.trans hu)
      simp only [hl, hy, heq]
      rfl
  · constructor
    · intro h
      obtain hr | hr := hr <;> rw [hr] at h <;> cases h
    · rintro ⟨u, l, y, hu, -⟩
      rw [hq] at hu
      cases hu

/-! ## One object -/

theorem insertObject_cases (ha : tc.arrangedObjects = some tc.content)
    (h : tc.insertObject object path = .ok tc') :
    tc' = tc ∨ (tc.canAddChild = true ∧ tc.countKeyPath = none ∧
      ∃ q i node l, path = q ++ [i] ∧ walk tc.arrays none q = some (some node) ∧
        tc.children node = some l ∧
        tc' = { tc with children := Function.update tc.children node (some (l ++ [object])) }) := by
  unfold NSTreeController.insertObject at h
  split at h
  · rename_i hc
    rcases List.eq_nil_or_concat path with rfl | ⟨q, i, rfl⟩
    · exact nomatch h
    rw [List.concat_eq_append] at h ⊢
    rw [lastIndex_concat, childrenAt_concat] at h
    have he := endsAt ha q
    generalize q.foldlM tc.descend .childNodes = r at he h
    cases he with
    | top hq =>
      left
      have hr : (tc.setArray (tc.content ++ [object]) .childNodes).rearrangeObjects = tc' := by
        simpa [NSTreeController.array, ha, bind, Except.bind, pure, Except.pure] using h
      rw [← hr]
      exact rearrange_setArray_childNodes ha _
    | node hq =>
      rename_i node
      cases hl : tc.children node with
      | none =>
        left
        have hr : tc.rearrangeObjects = tc' := by
          simpa [NSTreeController.array, hl, bind, Except.bind, pure, Except.pure] using h
        rw [← hr]
        exact rearrangeObjects_eq ha
      | some l =>
        right
        refine ⟨hc.1, hc.2, q, i, node, l, rfl, hq, hl, ?_⟩
        have hr : (tc.setArray (l ++ [object]) (.ofNode node)).rearrangeObjects = tc' := by
          simpa [NSTreeController.array, hl, bind, Except.bind, pure, Except.pure] using h
        rw [← hr]
        exact rearrange_setArray_ofNode ha _ _
    | null hq =>
      left
      have hr : tc.rearrangeObjects = tc' := by
        simpa [NSTreeController.array, bind, Except.bind, pure, Except.pure] using h
      rw [← hr]
      exact rearrangeObjects_eq ha
    | raises hq => exact nomatch h
  · exact .inl (Except.ok.inj h).symm

omit [DecidableEq O] in
theorem arrays_keeping (tc : NSTreeController O) (keep : O → Bool) :
    (tc.keeping keep).arrays = Forests.keeping keep tc.arrays := by
  funext s
  cases s <;> rfl

omit [DecidableEq O] in
theorem keeping_of_kept (ha : tc.arrangedObjects = some tc.content) {keep : O → Bool}
    (hk : ∀ s l, tc.arrays s = some l → ∀ x ∈ l, keep x) : tc.keeping keep = tc := by
  have hc : tc.content.filter keep = tc.content := List.filter_eq_self.2 (hk none _ rfl)
  refine NSTreeController.ext hc ?_ ?_ rfl rfl rfl
  · simp only [NSTreeController.keeping, ha, Option.map_some, hc]
  · funext node
    simp only [NSTreeController.keeping]
    cases hl : tc.children node with
    | none => rfl
    | some l => rw [Option.map_some, List.filter_eq_self.2 (hk (some node) l hl)]

theorem keeping_of_fresh (ha : tc.arrangedObjects = some tc.content) (hf : tc.Fresh object) :
    tc.keeping (· ≠ object) = tc := by
  refine keeping_of_kept ha fun s l hl x hx => decide_eq_true ?_
  rintro rfl
  exact hf s l hl hx

/-- The controller with the object behind the other children of a node. -/
def withChild (tc : NSTreeController O) (node : O) (l : List O) (object : O) : NSTreeController O :=
  { tc with children := Function.update tc.children node (some (l ++ [object])) }

theorem arrays_withChild (node : O) (l : List O) :
    (withChild tc node l object).arrays = adding tc.arrays (some node) l object := by
  funext s
  cases s with
  | none => exact (Function.update_of_ne (Option.some_ne_none node).symm _ _).symm
  | some o =>
    by_cases ho : o = node
    · subst ho
      rw [adding_self]
      exact Function.update_self ..
    · rw [adding, Function.update_of_ne fun h => ho (Option.some.inj h)]
      exact Function.update_of_ne ho _ _

theorem keeping_withChild (ha : tc.arrangedObjects = some tc.content) (hf : tc.Fresh object)
    {node : O} {l : List O} (hl : tc.children node = some l) :
    (withChild tc node l object).keeping (· ≠ object) = tc := by
  have hs := keeping_of_fresh ha hf
  have hc := congrArg content hs
  have har := congrArg arrangedObjects hs
  refine NSTreeController.ext hc har ?_ rfl rfl rfl
  funext o
  by_cases ho : o = node
  · subst ho
    have hk : l.filter (· ≠ object) = l := by
      rw [List.filter_eq_self]
      intro x hx
      refine decide_eq_true ?_
      rintro rfl
      exact hf (some o) l hl hx
    simp only [NSTreeController.keeping, withChild, Function.update_self, Option.map_some, List.filter_append, hk, hl]
    simp
  · have hother := congrFun (congrArg children hs) o
    simp only [NSTreeController.keeping, withChild, Function.update_of_ne ho] at hother ⊢
    exact hother

theorem insertObject_others (ha : tc.arrangedObjects = some tc.content) (hf : tc.Fresh object)
    (h : tc.insertObject object path = .ok tc') : tc'.keeping (· ≠ object) = tc := by
  rcases insertObject_cases ha h with rfl | ⟨-, -, q, i, node, l, -, -, hl, rfl⟩
  · exact keeping_of_fresh ha hf
  · exact keeping_withChild ha hf hl

theorem appends_of_inserts (ht : tc.IsTree) (hfrs : tc.Fresh object)
    (h : tc.insertObject object path = .ok tc') (hins : Inserts tc object path tc') : tc.Appends path := by
  have hf := (objectAtIndexPath_eq hins.tree.arranged).1 hins.found
  rcases insertObject_cases ht.arranged h with rfl | ⟨hc, hcnt, q, i, node, l, rfl, hq, hl, rfl⟩
  · obtain ⟨u, l, hl, hmem⟩ := mem_of_walk hf
    exact absurd hmem (hfrs u l hl)
  · change walk (withChild tc node l object).arrays none (q ++ [i]) = _ at hf
    rw [arrays_withChild] at hf
    obtain ⟨u, m, x, hu, hm, hx, heq⟩ := walk_concat.1 hf
    have hs : tc.arrays (some node) = some l := hl
    obtain rfl := Option.some.inj ((walk_adding hs hq).symm.trans hu)
    rw [adding_self, Option.some.injEq] at hm
    subst hm
    obtain rfl := Option.some.inj heq
    have hi : i = l.length := by
      by_contra hne
      have hlt := (List.getElem?_eq_some_iff.1 hx).1
      rw [List.length_append, List.length_singleton] at hlt
      rw [List.getElem?_append_left (by omega)] at hx
      exact hfrs _ _ hs (List.mem_of_getElem? hx)
    exact ⟨hc, hcnt, q, node, l, by rw [hi], hq, hl⟩

theorem inserts_of_appends (ht : tc.IsTree) (hf : tc.Fresh object) (ha : tc.Appends path) :
    tc.insertObject object path = .ok (tc.inserted object path) ∧ Inserts tc object path (tc.inserted object path) := by
  obtain ⟨hc, hcnt, q, node, l, rfl, hq, hl⟩ := ha
  have hs : tc.arrays (some node) = some l := hl
  have hin : tc.inserted object (q ++ [l.length]) = withChild tc node l object := by
    simp only [NSTreeController.inserted, List.dropLast_concat, List.getLast?_concat, hq, hl, withChild,
      Option.map_some, List.insertIdx_length_self]
  have hcd : tc.insertObject object (q ++ [l.length]) = .ok (withChild tc node l object) := by
    have he := endsAt ht.arranged q
    unfold NSTreeController.insertObject
    rw [if_pos ⟨hc, hcnt⟩, lastIndex_concat, childrenAt_concat]
    generalize q.foldlM tc.descend .childNodes = r at he
    cases he with
    | top hn =>
      subst hn
      exact nomatch hq
    | node hq' =>
      obtain rfl := Option.some.inj (Option.some.inj (hq'.symm.trans hq))
      simp only [NSTreeController.array, hl, bind, Except.bind, pure, Except.pure]
      rw [rearrange_setArray_ofNode ht.arranged]
      rfl
    | null hnn =>
      rw [hq] at hnn
      exact nomatch hnn
    | raises hnn =>
      rw [hq] at hnn
      exact nomatch hnn
  rw [hin]
  refine ⟨hcd, ⟨⟨?_, ht.arranged⟩, ?_, keeping_withChild ht.arranged hf hl⟩⟩
  · rw [arrays_withChild]
    exact ht.toIsForest.adding hs hf
  · have harr : (withChild tc node l object).arrangedObjects =
        some (withChild tc node l object).content := ht.arranged
    rw [objectAtIndexPath_eq harr, arrays_withChild]
    exact walk_concat.2 ⟨_, _, object, walk_adding hs hq, adding_self, by simp, rfl⟩

theorem inserts_iff (ht : tc.IsTree) (hf : tc.Fresh object) :
    (∃ tc', tc.insertObject object path = .ok tc' ∧ Inserts tc object path tc') ↔ tc.Appends path :=
  ⟨fun ⟨_, h, hi⟩ => appends_of_inserts ht hf h hi,
    fun ha => ⟨_, inserts_of_appends ht hf ha⟩⟩

/-! ## Several objects -/

section Several

variable {pairs : List (O × List Nat)}

theorem insertObject_arranged (ha : tc.arrangedObjects = some tc.content)
    (h : tc.insertObject object path = .ok tc') : tc'.arrangedObjects = some tc'.content := by
  rcases insertObject_cases ha h with rfl | ⟨-, -, q, i, node, l, -, -, -, rfl⟩
  · exact ha
  · exact ha

theorem insertObject_fresh (ha : tc.arrangedObjects = some tc.content)
    (h : tc.insertObject object path = .ok tc') {other : O} (hf : tc.Fresh other)
    (hne : other ≠ object) : tc'.Fresh other := by
  rcases insertObject_cases ha h with rfl | ⟨-, -, q, i, node, l, -, -, hl, rfl⟩
  · exact hf
  · intro s m hm hmem
    change (withChild tc node l object).arrays s = some m at hm
    rw [arrays_withChild] at hm
    have hs : tc.arrays (some node) = some l := hl
    rcases adding_cases hs hm with ⟨rfl, rfl⟩ | ⟨-, ho⟩
    · rcases List.mem_append.1 hmem with hmem | hmem
      · exact hf _ _ hs hmem
      · exact hne (List.mem_singleton.1 hmem)
    · exact hf _ _ ho hmem

omit [DecidableEq O] in
theorem keeping_keeping (tc : NSTreeController O) (keep keep' : O → Bool) :
    (tc.keeping keep).keeping keep' = tc.keeping fun x => keep x && keep' x := by
  have hf (l : List O) : (l.filter keep).filter keep' = l.filter fun x => keep x && keep' x := by
    rw [List.filter_filter]
    exact List.filter_congr fun x _ => Bool.and_comm _ _
  refine NSTreeController.ext (hf _) ?_ ?_ rfl rfl rfl
  · simp only [NSTreeController.keeping, Option.map_map]
    exact congrArg (Option.map · tc.arrangedObjects) (funext hf)
  · funext node
    simp only [NSTreeController.keeping, Option.map_map]
    exact congrArg (Option.map · (tc.children node)) (funext hf)

omit [DecidableEq O] in
theorem keeping_all (tc : NSTreeController O) {keep : O → Bool} (ha : ∀ x, keep x) : tc.keeping keep = tc := by
  have hf (l : List O) : l.filter keep = l := List.filter_eq_self.2 fun x _ => ha x
  have hm : List.filter keep = id := funext hf
  refine NSTreeController.ext (hf _) ?_ ?_ rfl rfl rfl
  · simp only [NSTreeController.keeping, hm, Option.map_id]
    rfl
  · funext node
    simp only [NSTreeController.keeping, hm, Option.map_id]
    rfl

variable {objects : List O}

theorem keeping_cons {mid : NSTreeController O}
    (hl : tc'.keeping (· ∉ objects) = mid) (hf : mid.keeping (· ≠ object) = tc) :
    tc'.keeping (· ∉ object :: objects) = tc := by
  rw [← hf, ← hl, keeping_keeping]
  congr 1
  funext x
  simp [List.mem_cons, Bool.and_comm]

theorem keeping_of_insertsAll (h : InsertsAll tc pairs tc') : tc'.keeping (· ∉ pairs.map Prod.fst) = tc := by
  induction pairs generalizing tc with
  | nil =>
    obtain rfl := h
    exact keeping_all _ fun x => by simp
  | cons pair pairs ih =>
    obtain ⟨mid, hi, hr⟩ := h
    exact keeping_cons (ih hr) hi.others

theorem keeping_of_insertObjects (ha : tc.arrangedObjects = some tc.content)
    (hnd : (pairs.map Prod.fst).Nodup) (hfrs : ∀ o ∈ pairs.map Prod.fst, tc.Fresh o)
    (h : pairs.foldlM (fun tc pair => tc.insertObject pair.1 pair.2) tc = .ok tc') :
    tc'.keeping (· ∉ pairs.map Prod.fst) = tc := by
  induction pairs generalizing tc with
  | nil =>
    obtain rfl := Except.ok.inj h
    exact keeping_all _ fun x => by simp
  | cons pair pairs ih =>
    rw [List.map_cons, List.nodup_cons] at hnd
    rw [List.foldlM_cons] at h
    cases hf : tc.insertObject pair.1 pair.2 with
    | error e =>
      rw [hf] at h
      exact nomatch h
    | ok mid =>
      rw [hf] at h
      refine keeping_cons (ih (insertObject_arranged ha hf) hnd.2 ?_ h)
        (insertObject_others ha (hfrs _ List.mem_cons_self) hf)
      intro o ho
      refine insertObject_fresh ha hf (hfrs o (List.mem_cons_of_mem _ ho)) ?_
      rintro rfl
      exact hnd.1 ho

theorem appendsAll_of_insertsAll (ht : tc.IsTree) (hnd : (pairs.map Prod.fst).Nodup)
    (hf : ∀ o ∈ pairs.map Prod.fst, tc.Fresh o)
    (h : pairs.foldlM (fun tc pair => tc.insertObject pair.1 pair.2) tc = .ok tc')
    (hi : InsertsAll tc pairs tc') : AppendsAll tc pairs := by
  induction pairs generalizing tc with
  | nil => trivial
  | cons pair pairs ih =>
    rw [List.map_cons, List.nodup_cons] at hnd
    rw [List.foldlM_cons] at h
    obtain ⟨mid, hfst, hr⟩ := hi
    have hfr := hf _ List.mem_cons_self
    cases hc : tc.insertObject pair.1 pair.2 with
    | error e =>
      rw [hc] at h
      exact nomatch h
    | ok mid' =>
      rw [hc] at h
      have hl : ∀ o ∈ pairs.map Prod.fst, mid'.Fresh o := by
        intro o ho
        refine insertObject_fresh ht.arranged hc (hf o (List.mem_cons_of_mem _ ho)) ?_
        rintro rfl
        exact hnd.1 ho
      -- what is left without the later objects is the state after the first one, on both sides
      have hs : mid' = mid := by
        rw [← keeping_of_insertObjects (insertObject_arranged ht.arranged hc) hnd.2 hl h]
        exact keeping_of_insertsAll hr
      subst hs
      have ha := appends_of_inserts ht hfr hc hfst
      have hin := Except.ok.inj (hc.symm.trans (inserts_of_appends ht hfr ha).1)
      refine ⟨ha, ?_⟩
      rw [← hin]
      exact ih hfst.tree hnd.2 hl h hr

theorem insertsAll_of_appendsAll (ht : tc.IsTree) (hnd : (pairs.map Prod.fst).Nodup)
    (hf : ∀ o ∈ pairs.map Prod.fst, tc.Fresh o) (ha : AppendsAll tc pairs) :
    ∃ tc', pairs.foldlM (fun tc pair => tc.insertObject pair.1 pair.2) tc = .ok tc' ∧ InsertsAll tc pairs tc' := by
  induction pairs generalizing tc with
  | nil => exact ⟨tc, rfl, rfl⟩
  | cons pair pairs ih =>
    rw [List.map_cons, List.nodup_cons] at hnd
    obtain ⟨hfst, hrs⟩ := ha
    obtain ⟨hc, hi⟩ := inserts_of_appends ht (hf _ List.mem_cons_self) hfst
    have hl : ∀ o ∈ pairs.map Prod.fst, (tc.inserted pair.1 pair.2).Fresh o := by
      intro o ho
      refine insertObject_fresh ht.arranged hc (hf o (List.mem_cons_of_mem _ ho)) ?_
      rintro rfl
      exact hnd.1 ho
    obtain ⟨tc', hr, hall⟩ := ih hi.tree hnd.2 hl hrs
    refine ⟨tc', ?_, _, hi, hall⟩
    rw [List.foldlM_cons, hc]
    exact hr

theorem insertObject_of_guarded (hg : ¬ (tc.canAddChild = true ∧ tc.countKeyPath = none)) :
    tc.insertObject object path = .ok tc := if_neg hg

theorem insertObjects_eq {paths : List (List Nat)} (hl : objects.length = paths.length) :
    tc.insertObjects objects paths = (objects.zip paths).foldlM (fun tc pair => tc.insertObject pair.1 pair.2) tc := by
  unfold NSTreeController.insertObjects
  split
  · rfl
  · rename_i hg
    have hg : ¬ (tc.canAddChild = true ∧ tc.countKeyPath = none) := fun h => hg ⟨h.1, h.2, hl⟩
    generalize objects.zip paths = pairs
    induction pairs with
    | nil => rfl
    | cons pair pairs ih =>
      rw [List.foldlM_cons, insertObject_of_guarded hg]
      exact ih

theorem insertsAll_iff (ht : tc.IsTree) {paths : List (List Nat)}
    (hl : objects.length = paths.length) (hnd : objects.Nodup) (hf : ∀ o ∈ objects, tc.Fresh o) :
    (∃ tc', tc.insertObjects objects paths = .ok tc' ∧ InsertsAll tc (objects.zip paths) tc') ↔
      AppendsAll tc (objects.zip paths) := by
  have ho : (objects.zip paths).map Prod.fst = objects := List.map_fst_zip (by omega)
  rw [← ho] at hnd hf
  rw [insertObjects_eq hl]
  constructor
  · rintro ⟨tc', hr, hi⟩
    exact appendsAll_of_insertsAll ht hnd hf hr hi
  · exact insertsAll_of_appendsAll ht hnd hf

end Several

end GnustepGui.TreeController
