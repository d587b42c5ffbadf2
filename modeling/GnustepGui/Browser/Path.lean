import GnustepGui.Browser.Shown

/-!
# Paths in a browser that shows a tree

`setPath:` answers yes if the components of the path name a node, and selects the longest prefix of the path that
names one (`setPath_selects`). Titles are distinct among siblings; whatever has been selected before makes no difference.
-/

namespace GnustepGui.Browser

inductive Node where
  | leaf (title : Title)
  | branch (title : Title) (children : List Node)

namespace Node

def title : Node → Title
  | leaf title => title
  | branch title _ => title

def isLeaf : Node → Bool
  | leaf _ => true
  | branch _ _ => false

def children : Node → List Node
  | leaf _ => []
  | branch _ children => children

end Node

/-- The first node with a title, and the children of the last one. -/
def childrenBelow : List Node → List Title → List Node
  | nodes, [] => nodes
  | nodes, title :: path =>
    match nodes.find? (·.title = title) with
    | none => []
    | some node => childrenBelow node.children path

/-- A delegate that shows the children of what is selected. -/
def serve (nodes : List Node) : Delegate := fun before =>
  (childrenBelow nodes before).map fun node => (node.title, node.isLeaf)

/-- No two siblings have the same title. -/
inductive Distinct : List Node → Prop
  | intro {nodes : List Node} : (nodes.map Node.title).Nodup → (∀ node ∈ nodes, Distinct node.children) → Distinct nodes

/-- The titles lead to a node; none of them lead to the root. -/
def Names : List Node → List Title → Prop
  | _, [] => True
  | nodes, title :: path => ∃ node ∈ nodes, node.title = title ∧ Names node.children path

variable {nodes : List Node} {before path : List Title} {title : Title}

/-! ## The tree -/

theorem Distinct.nodup (hd : Distinct nodes) : (nodes.map Node.title).Nodup := by
  cases hd with
  | intro hnd _ => exact hnd

theorem Distinct.children (hd : Distinct nodes) {node : Node} (hnd : node ∈ nodes) : Distinct node.children := by
  cases hd with
  | intro _ hk => exact hk node hnd

theorem Distinct.childrenBelow (hd : Distinct nodes) (before : List Title) :
    Distinct (Browser.childrenBelow nodes before) := by
  induction before generalizing nodes with
  | nil => exact hd
  | cons title before ih =>
    rw [Browser.childrenBelow]
    cases hf : nodes.find? (·.title = title) with
    | none => exact .intro List.nodup_nil fun _ h => nomatch h
    | some node => exact ih (hd.children (List.mem_of_find?_eq_some hf))

theorem childrenBelow_concat (nodes : List Node) (before : List Title) (title : Title) :
    childrenBelow nodes (before ++ [title]) = childrenBelow (childrenBelow nodes before) [title] := by
  induction before generalizing nodes with
  | nil => rfl
  | cons first before ih =>
    rw [List.cons_append, childrenBelow, childrenBelow.eq_2 nodes]
    cases nodes.find? (·.title = first) with
    | none => rfl
    | some node => exact ih node.children

theorem names_cons_iff (hd : Distinct nodes) : Names nodes (title :: path) ↔
    ∃ node, nodes.find? (·.title = title) = some node ∧ Names node.children path := by
  constructor
  · rintro ⟨node, hnd, rfl, hn⟩
    cases hf : nodes.find? (·.title = node.title) with
    | none => exact absurd (decide_eq_true rfl) (List.find?_eq_none.mp hf node hnd)
    | some first =>
      have ht := List.find?_some hf
      rw [decide_eq_true_eq] at ht
      obtain rfl := List.inj_on_of_nodup_map hd.nodup (List.mem_of_find?_eq_some hf) hnd ht
      exact ⟨first, rfl, hn⟩
  · rintro ⟨node, hf, hn⟩
    have ht := List.find?_some hf
    rw [decide_eq_true_eq] at ht
    exact ⟨node, List.mem_of_find?_eq_some hf, ht, hn⟩

theorem serve_find? (nodes : List Node) (before : List Title) (title : Title) :
    (serve nodes before).find? (·.1 = title) =
      ((childrenBelow nodes before).find? (·.title = title)).map fun node => (node.title, node.isLeaf) := by
  rw [serve, List.find?_map]
  rfl

/-- As many titles name something as lead to a node. -/
theorem names_take_iff (hd : Distinct nodes) (before : List Title) {path : List Title} {count : Nat}
    (hc : count ≤ path.length) :
    Names (childrenBelow nodes before) (path.take count) ↔ count ≤ Stack.named (serve nodes) before path := by
  induction path generalizing before count with
  | nil =>
    obtain rfl := Nat.le_zero.mp hc
    exact ⟨fun _ => Nat.zero_le _, fun _ => trivial⟩
  | cons title path ih =>
    cases count with
    | zero => exact ⟨fun _ => Nat.zero_le _, fun _ => trivial⟩
    | succ count =>
      have hc' : count ≤ path.length := Nat.le_of_succ_le_succ hc
      have hb := childrenBelow_concat nodes before title
      rw [childrenBelow] at hb
      rw [List.take_succ_cons, names_cons_iff (hd.childrenBelow before), Stack.named, serve_find?]
      cases hf : (childrenBelow nodes before).find? (·.title = title) with
      | none =>
        constructor
        · rintro ⟨_, h, _⟩
          cases h
        · exact fun h => absurd h (Nat.not_succ_le_zero count)
      | some node =>
        rw [hf] at hb
        simp only [Option.some.injEq, exists_eq_left', Option.map_some]
        cases node with
        | leaf leafTitle =>
          have hnn : Names [] (path.take count) ↔ path.take count = [] := by
            cases path.take count with
            | nil => exact ⟨fun _ => rfl, fun _ => trivial⟩
            | cons _ _ =>
              constructor
              · rintro ⟨_, h, _⟩
                cases h
              · exact fun h => absurd h (List.cons_ne_nil _ _)
          simp only [Node.isLeaf, if_true, Node.children, hnn, List.take_eq_nil_iff]
          constructor
          · rintro (hz | hn)
            · omega
            · rw [hn] at hc'
              exact Nat.succ_le_succ hc'
          · intro hle
            exact .inl (by omega)
        | branch branchTitle children =>
          have hk : childrenBelow nodes (before ++ [title]) = children := by
            rw [hb]
            rfl
          simp only [Node.isLeaf, Bool.false_eq_true, if_false, Node.children, Nat.succ_le_succ_iff, ← hk]
          exact ih (before ++ [title]) hc'

/-! ## The stack -/

theorem serve_nodup (hd : Distinct nodes) (before : List Title) : ((serve nodes before).map Prod.fst).Nodup := by
  rw [serve, List.map_map]
  exact (hd.childrenBelow before).nodup

theorem find?_row {rows : List (Title × Bool)} (hnd : (rows.map Prod.fst).Nodup) {content : Title × Bool}
    (hm : content ∈ rows) : rows.find? (·.1 = content.1) = some content := by
  cases hf : rows.find? (·.1 = content.1) with
  | none => exact absurd (decide_eq_true rfl) (List.find?_eq_none.mp hf content hm)
  | some first =>
    have ht := List.find?_some hf
    rw [decide_eq_true_eq] at ht
    rw [List.inj_on_of_nodup_map hnd (List.mem_of_find?_eq_some hf) hm ht]

theorem named_of_trail {stack : List ShownColumn} (hd : Distinct nodes)
    (ht : Stack.Trail (serve nodes) stack before) (path : List Title) :
    Stack.named (serve nodes) [] (before ++ path) = before.length + Stack.named (serve nodes) before path := by
  induction ht generalizing path with
  | root => rw [List.nil_append, List.length_nil, Nat.zero_add]
  | @branch stack before column row title _ hrw _ hr ih =>
    rw [hrw] at hr
    have hf := find?_row (serve_nodup hd before) (List.mem_of_getElem? hr)
    rw [List.append_assoc, List.singleton_append, ih, Stack.named, hf, List.length_append]
    simp only [Bool.false_eq_true, if_false, List.length_singleton]
    omega

theorem setAbsolutePath_titles {stack : List ShownColumn} (hd : Distinct nodes)
    (hp : Stack.Proper (serve nodes) stack) (hne : stack ≠ []) (path : List Title) :
    ((Stack.setAbsolutePath (serve nodes) false stack path).2 = true ↔
        Stack.named (serve nodes) [] path = path.length) ∧
      titles (Stack.setAbsolutePath (serve nodes) false stack path).1 =
        path.take (Stack.named (serve nodes) [] path) := by
  obtain ⟨-, hy, ht⟩ := Stack.setAbsolutePath_spec (serve nodes) hp hne false path
  obtain ⟨last, -, htr, -⟩ := Stack.setAbsolutePath_kept (serve nodes) hp hne false path
  have hle : Stack.matching stack path - 1 ≤ path.length := (Nat.sub_le _ _).trans (Stack.matching_le stack path).2
  generalize Stack.matching stack path - 1 = kept at *
  have hn := named_of_trail hd htr (path.drop kept)
  rw [List.take_append_drop, List.length_take, min_eq_left hle] at hn
  rw [List.length_drop] at hy
  refine ⟨hy.trans ?_, (ht rfl).trans (by rw [hn])⟩
  omega

/-! ## Runs -/

/-- The calls that select. -/
def Call.Selects : Call → Prop
  | .loadColumnZero | .selectRow _ _ | .setPath _ => True
  | _ => False

theorem Call.Selects.browses {call : Call} (h : call.Selects) : call.Browses := by
  cases call with
  | setLastColumn column => exact h.elim
  | reloadColumn column => exact h.elim
  | _ => exact h

open NSBrowser

variable {settings : Settings} {delegate : Delegate} {browser : NSBrowser} {stack : List ShownColumn}

theorem canLoad_of_empties (he : settings.Empties) (loads : List (Nat × List Title)) :
    CanLoad settings delegate browser loads :=
  fun _ _ _ _ => .inr (.inl he)

variable (delegate) in
/-- After a run of calls that select the browser shows a proper stack. -/
theorem run_shows (he : settings.Empties) {calls : List Call} (hcs : ∀ call ∈ calls, call.Selects)
    (h : Represents browser stack) (hs : Sound browser) (hr : Ready settings browser)
    (hp : Stack.Proper delegate stack) : ∃ after stack',
    run settings browser (calls.map (Step.mk delegate)) = some after ∧ Sound after ∧ Ready settings after ∧
      Represents after stack' ∧ Stack.Proper delegate stack' := by
  induction calls generalizing browser stack with
  | nil => exact ⟨browser, stack, rfl, hs, hr, h, hp⟩
  | cons call calls ih =>
    have hc := hcs call List.mem_cons_self
    obtain ⟨next, hn, hs', hr', hrep⟩ := perform_represents settings delegate hc.browses h hs
      hr hp (canLoad_of_empties he _) fun column shown hrel => by
        rw [hrel] at hc
        exact hc.elim
    obtain ⟨after, stack', ha, hf⟩ := ih (fun call hm => hcs call (List.mem_cons_of_mem _ hm))
      hrep hs' hr' (Stack.perform_proper settings hc.browses hp)
    refine ⟨after, stack', ?_, hf⟩
    rw [List.map_cons, run, List.foldlM_cons, hn]
    exact ha

theorem initWithFrame_represents (frameWidth : ℚ) : Represents (initWithFrame frameWidth) [] :=
  ⟨rfl, fun _ _ h => nomatch h⟩

/-- Whatever has been selected before, an absolute path is found if and only if its components name a node, and is
the path then; where it is not found, the path is the longest part of it that names one. -/
theorem setPath_selects (settings : Settings) {nodes : List Node} (frameWidth : ℚ) {calls : List Call} (path : List Char)
    (hdistinct : Distinct nodes) (hempty : settings.allowsEmptySelection = true)
    (hcalls : ∀ call ∈ calls, call.Selects) (habsolute : settings.pathSeparator <+: path) :
    ∃ before after yes, run settings (initWithFrame frameWidth) (calls.map (Step.mk (serve nodes))) = some before ∧
      before.setPath settings (serve nodes) path = some (after, yes) ∧
      (yes = true ↔ Names nodes (subStrings settings.pathSeparator path)) ∧
      (yes = true → after.path settings = some (settings.pathSeparator ++
        settings.pathSeparator.intercalate (subStrings settings.pathSeparator path))) ∧
      (yes = false → ∃ count < (subStrings settings.pathSeparator path).length,
        Names nodes ((subStrings settings.pathSeparator path).take count) ∧
        (∀ longer, count < longer → longer ≤ (subStrings settings.pathSeparator path).length →
          ¬ Names nodes ((subStrings settings.pathSeparator path).take longer)) ∧
        after.path settings = some (settings.pathSeparator ++ settings.pathSeparator.intercalate
          ((subStrings settings.pathSeparator path).take count))) := by
  have he : settings.Empties := .inl hempty
  obtain ⟨before, stack, hb, hs, hr, hrep, hpr⟩ := run_shows (serve nodes) he
    hcalls (initWithFrame_represents frameWidth) (initWithFrame_sound frameWidth) (.inr ⟨rfl, rfl, rfl⟩) .empty
  obtain ⟨after, haft, -, -, hshn⟩ := setPath_represents hrep hs hr hpr path
    (canLoad_of_empties he _)
  refine ⟨before, after, _, hb, haft, ?_⟩
  have hp := hshn.path settings
  have hset : Stack.setPath (serve nodes) settings stack path = Stack.setAbsolutePath (serve nodes) false
      (Stack.ensureLoaded (serve nodes) stack) (subStrings settings.pathSeparator path) := by
    unfold Stack.setPath
    dsimp only
    rw [if_pos (List.isPrefixOf_iff_prefix.mpr habsolute), decide_eq_true he]
    rfl
  obtain ⟨hy, ht⟩ := setAbsolutePath_titles hdistinct (Stack.ensureLoaded_proper hpr)
    Stack.ensureLoaded_ne_nil (subStrings settings.pathSeparator path)
  rw [← hset] at hy ht
  rw [ht] at hp
  generalize subStrings settings.pathSeparator path = titles at *
  have hle : Stack.named (serve nodes) [] titles ≤ titles.length := Stack.named_le _ _ _
  have hn {count : Nat} (hc : count ≤ titles.length) := names_take_iff hdistinct [] hc
  refine ⟨hy.trans ?_, fun h => ?_, fun h => ⟨Stack.named (serve nodes) [] titles, ?_, ?_, fun longer hlt hl => ?_, hp⟩⟩
  · have ha := hn le_rfl
    rw [List.take_length] at ha
    exact ⟨fun h => ha.mpr h.ge, fun h => le_antisymm hle (ha.mp h)⟩
  · rw [hy.mp h, List.take_length] at hp
    exact hp
  · refine lt_of_le_of_ne hle fun heq => ?_
    exact Bool.false_ne_true (h.symm.trans (hy.mpr heq))
  · exact (hn hle).mpr le_rfl
  · exact fun h => absurd ((hn hl).mp h) (Nat.not_le.mpr hlt)

/-- A branch with a leaf below it, and a leaf. -/
def someNodes : List Node :=
  [.branch ['a'] [.leaf ['b']], .leaf ['c']]

theorem someNodes_distinct : Distinct someNodes := by
  have hn : Distinct [] := .intro List.nodup_nil fun _ h => nomatch h
  have ho : Distinct [Node.leaf ['b']] := by
    refine .intro (List.nodup_singleton _) fun node hnd => ?_
    rw [List.mem_singleton.mp hnd]
    exact hn
  refine .intro (by decide) fun node hnd => ?_
  obtain rfl | hnd := List.mem_cons.mp hnd
  · exact ho
  · rw [List.mem_singleton.mp hnd]
    exact hn

/-- After `/a/b` the path `/c//b` leads to `/c`. -/
theorem setPath_selects_leaf : ∃ before after yes,
    run (someSettings true) (initWithFrame 300) [⟨serve someNodes, .setPath ['/', 'a', '/', 'b']⟩] = some before ∧
      before.setPath (someSettings true) (serve someNodes) ['/', 'c', '/', '/', 'b'] = some (after, yes) ∧
      (yes = true ↔ Names someNodes [['c'], ['b']]) := by
  have hc : ∀ call ∈ [Call.setPath ['/', 'a', '/', 'b']], call.Selects := by
    intro call hca
    rw [List.mem_singleton.mp hca]
    trivial
  obtain ⟨before, after, yes, hb, ha, hy, -⟩ := setPath_selects (someSettings true) 300
    ['/', 'c', '/', '/', 'b'] someNodes_distinct rfl hc ⟨['c', '/', '/', 'b'], rfl⟩
  exact ⟨before, after, yes, hb, ha, hy⟩

end GnustepGui.Browser
