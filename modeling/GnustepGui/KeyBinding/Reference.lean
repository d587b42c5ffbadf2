import GnustepGui.Library.PrefixMap
import GnustepGui.KeyBinding.Table

/-!
# The key binding table as a trie

The reference is a map from keystroke sequences (`PrefixMap`): a binding is a list of changes of it
(`bindingChanges`), where a later one wins and a dictionary keeps what is below its key. The nested
arrays answer every sequence of keystrokes as the reference does, and no array has two bindings of
one keystroke (`lookup_eq_reference`).
-/

namespace GnustepGui.KeyBinding

open PrefixMap

/-! ## The reference -/

section Changes

variable (p : KeyParser)

mutual

/-- What binding a key changes in the trie; a key that cannot be parsed changes nothing. -/
def bindingChanges (key : BindingKey) (action : BindingValue) :
    List (Change KeyStroke GSKeyBindingAction) :=
  match _h : unrollKey key action with
  | none => []
  | some (key', .dictionary entries) =>
    match p.keyStroke key' with
    | none => []
    | some stroke => .makeTable [stroke] :: (dictionaryChanges entries).map (Change.cons stroke)
  | some (key', value) =>
    match p.keyStroke key' with
    | none => []
    | some stroke => [.setLeaf [stroke] (p.actionFor value)]
termination_by key.weight + action.weight
decreasing_by exact weight_unrollKey _h

def dictionaryChanges (entries : BindingDictionary) :
    List (Change KeyStroke GSKeyBindingAction) :=
  match entries with
  | [] => []
  | (key, action) :: entries => bindingChanges key action ++ dictionaryChanges entries
termination_by dictionaryWeight entries
decreasing_by
  · simp only [dictionaryWeight]
    omega
  · have := key.weight_pos
    simp only [dictionaryWeight]
    omega

end

variable {p} {key key' : BindingKey} {action value : BindingValue}

theorem bindingChanges_none (h : unrollKey key action = none) : bindingChanges p key action = [] := by
  unfold bindingChanges
  split
  · rfl
  · simp_all
  · simp_all

theorem bindingChanges_dictionary {entries : BindingDictionary}
    (h : unrollKey key action = some (key', .dictionary entries)) :
    bindingChanges p key action =
      match p.keyStroke key' with
      | none => []
      | some stroke =>
        .makeTable [stroke] :: (dictionaryChanges p entries).map (Change.cons stroke) := by
  conv_lhs => unfold bindingChanges
  split
  · simp_all
  · simp_all
  · simp_all

theorem bindingChanges_leaf (h : unrollKey key action = some (key', value))
    (hv : ∀ entries, value ≠ .dictionary entries) :
    bindingChanges p key action =
      match p.keyStroke key' with
      | none => []
      | some stroke => [.setLeaf [stroke] (p.actionFor value)] := by
  conv_lhs => unfold bindingChanges
  split
  · simp_all
  · rename_i k es he
    rw [h] at he
    obtain ⟨-, hd⟩ := Prod.mk.inj (Option.some.inj he)
    exact absurd hd (hv es)
  · simp_all

end Changes

namespace GSKeyBindingTable

/-- What a sequence of keystrokes leads to, each looked up in the table the one before gave. -/
def lookup (t : GSKeyBindingTable) : List KeyStroke → Answer GSKeyBindingAction
  | [] => .table
  | stroke :: strokes =>
    match t.lookupKeyStroke stroke with
    | none => .miss
    | some (some a, _) => if strokes = [] then .action a else .miss
    | some (none, some sub) => sub.lookup strokes
    | some (none, none) => .miss

/-! ## Well-formed tables -/

/-- Each keystroke at most once, here and in the tables below; a table or an action, not both. -/
inductive WellFormed : GSKeyBindingTable → Prop
  | table {bindings : List GSKeyBinding} (distinct : (bindings.map GSKeyBinding.stroke).Nodup)
    (exclusive : ∀ b ∈ bindings, b.action = none ∨ b.subtable = none)
    (below : ∀ b ∈ bindings, ∀ t, b.subtable = some t → WellFormed t) :
    WellFormed (.table bindings)

theorem wellFormed_empty : WellFormed empty := by
  refine .table List.nodup_nil ?_ ?_
  · intro b hb
    cases hb
  · intro b hb
    cases hb

section BindStroke

variable {stroke : KeyStroke} {action : Option GSKeyBindingAction}
  {f : Option GSKeyBindingTable → Option GSKeyBindingTable} {bindings : List GSKeyBinding}

/-- The table bound to a keystroke before. -/
def oldTable (stroke : KeyStroke) (bindings : List GSKeyBinding) : Option GSKeyBindingTable :=
  (bindings.find? (·.stroke = stroke)).bind GSKeyBinding.subtable

theorem find_bindStroke (k : KeyStroke) :
    (bindStroke stroke action f bindings).find? (·.stroke = k) =
      if k = stroke then some (.binding stroke action (f (oldTable stroke bindings)))
      else bindings.find? (·.stroke = k) := by
  induction bindings with
  | nil =>
    by_cases hk : k = stroke
    · simp [bindStroke, oldTable, hk]
    · simp [bindStroke, hk, Ne.symm hk]
  | cons b bindings ih =>
    unfold bindStroke
    by_cases hb : b.stroke = stroke
    · rw [if_pos hb]
      by_cases hk : k = stroke
      · simp [oldTable, hk, hb]
      · simp [hk, Ne.symm hk, hb]
    · rw [if_neg hb]
      by_cases hk : k = stroke
      · subst hk
        rw [List.find?_cons_of_neg (by simpa using hb), ih]
        simp [oldTable, hb]
      · by_cases hbk : b.stroke = k
        · simp [hk, hbk]
        · rw [List.find?_cons_of_neg (by simpa using hbk), ih]
          simp [hk, hbk]

theorem mem_bindStroke {b : GSKeyBinding} (hb : b ∈ bindStroke stroke action f bindings) :
    b ∈ bindings ∨ b = .binding stroke action (f (oldTable stroke bindings)) := by
  induction bindings with
  | nil => exact Or.inr (by simpa [bindStroke, oldTable] using hb)
  | cons a bindings ih =>
    unfold bindStroke at hb
    by_cases ha : a.stroke = stroke
    · rw [if_pos ha, List.mem_cons] at hb
      rcases hb with rfl | hb
      · exact Or.inr (by simp [oldTable, ha])
      · exact Or.inl (List.mem_cons_of_mem _ hb)
    · rw [if_neg ha, List.mem_cons] at hb
      rcases hb with rfl | hb
      · exact Or.inl List.mem_cons_self
      · rcases ih hb with hb | hb
        · exact Or.inl (List.mem_cons_of_mem _ hb)
        · exact Or.inr (by simpa [oldTable, ha] using hb)

theorem mem_stroke_bindStroke {k : KeyStroke} (hk : k ∈ (bindStroke stroke action f bindings).map GSKeyBinding.stroke) :
    k ∈ bindings.map GSKeyBinding.stroke ∨ k = stroke := by
  obtain ⟨b, hb, rfl⟩ := List.mem_map.mp hk
  rcases mem_bindStroke hb with hb | rfl
  · exact Or.inl (List.mem_map_of_mem hb)
  · exact Or.inr rfl

theorem nodup_bindStroke (h : (bindings.map GSKeyBinding.stroke).Nodup) :
    ((bindStroke stroke action f bindings).map GSKeyBinding.stroke).Nodup := by
  induction bindings with
  | nil => simp [bindStroke]
  | cons b bindings ih =>
    obtain ⟨hb, hn⟩ := List.nodup_cons.mp h
    unfold bindStroke
    by_cases hs : b.stroke = stroke
    · rw [if_pos hs, List.map_cons]
      exact List.nodup_cons.mpr ⟨hs ▸ hb, hn⟩
    · rw [if_neg hs, List.map_cons]
      refine List.nodup_cons.mpr ⟨fun hm => ?_, ih hn⟩
      exact (mem_stroke_bindStroke hm).elim hb hs

theorem WellFormed.bindStroke (h : WellFormed (.table bindings))
    (hexcl : action = none ∨ f (oldTable stroke bindings) = none)
    (hblw : ∀ t, f (oldTable stroke bindings) = some t → WellFormed t) :
    WellFormed (.table (GSKeyBindingTable.bindStroke stroke action f bindings)) := by
  cases h with
  | table hd hex hs =>
    refine .table (nodup_bindStroke hd) ?_ ?_
    · intro b hb
      rcases mem_bindStroke hb with hb | rfl
      · exact hex b hb
      · exact hexcl
    · intro b hb t ht
      rcases mem_bindStroke hb with hb | rfl
      · exact hs b hb t ht
      · exact hblw t ht

end BindStroke

theorem WellFormed.oldTable {bindings : List GSKeyBinding} {stroke : KeyStroke}
    {t : GSKeyBindingTable} (h : WellFormed (.table bindings))
    (ht : GSKeyBindingTable.oldTable stroke bindings = some t) :
    WellFormed t ∧ bindings.find? (·.stroke = stroke) = some (.binding stroke none (some t)) := by
  obtain ⟨b, hf, hb⟩ := Option.bind_eq_some_iff.mp ht
  have hm := List.mem_of_find?_eq_some hf
  have hs : b.stroke = stroke := by simpa using List.find?_some hf
  cases h with
  | table hd hex hsub =>
    refine ⟨hsub b hm t hb, ?_⟩
    rw [hf]
    cases b with
    | binding s a sub =>
      have hnn : a = none := (hex _ hm).resolve_right fun hn => by
        rw [hb] at hn
        cases hn
      simp only [GSKeyBinding.stroke_binding] at hs
      simp only [GSKeyBinding.subtable_binding] at hb
      rw [hs, hnn, hb]

/-! ## Binding refines the reference -/

/-- The table answers as the trie of another one after changes. -/
structure Refines (t t' : GSKeyBindingTable) (changes : List (Change KeyStroke GSKeyBindingAction)) :
    Prop where
  wellFormed : WellFormed t'
  lookup : ∀ strokes, t'.lookup strokes = performAll t.lookup changes strokes

theorem lookup_table_ne {bindings : List GSKeyBinding} {stroke k : KeyStroke}
    {action : Option GSKeyBindingAction} {f : Option GSKeyBindingTable → Option GSKeyBindingTable}
    (hk : k ≠ stroke) (strokes : List KeyStroke) :
    (table (GSKeyBindingTable.bindStroke stroke action f bindings)).lookup (k :: strokes) =
      (table bindings).lookup (k :: strokes) := by
  unfold lookup lookupKeyStroke GSKeyBindingTable.bindings
  rw [find_bindStroke, if_neg hk]

theorem refines_setLeaf {bindings : List GSKeyBinding} (h : WellFormed (.table bindings))
    (stroke : KeyStroke) (action : Option GSKeyBindingAction) :
    Refines (.table bindings) (.table (bindStroke stroke action (fun _ => none) bindings))
      [.setLeaf [stroke] action] := by
  refine ⟨h.bindStroke (Or.inr rfl) (fun t ht => by cases ht), ?_⟩
  intro strokes
  cases strokes with
  | nil => simp [lookup, performAll, Change.perform]
  | cons k strokes =>
    by_cases hk : k = stroke
    · subst hk
      unfold lookup lookupKeyStroke GSKeyBindingTable.bindings
      rw [find_bindStroke, if_pos rfl]
      cases action with
      | none => cases strokes <;> simp [performAll, Change.perform, Answer.ofLeaf]
      | some a => cases strokes <;> simp [performAll, Change.perform, Answer.ofLeaf]
    · rw [lookup_table_ne hk]
      simp [performAll, Change.perform, hk, Ne.symm hk]

/-- The subtrie of a keystroke that gets a table: what was below it stays. -/
theorem under_makeTable {bindings : List GSKeyBinding} (h : WellFormed (.table bindings)) (stroke : KeyStroke) :
    under stroke (Change.perform (table bindings).lookup (.makeTable [stroke])) =
      ((oldTable stroke bindings).getD empty).lookup := by
  funext strokes
  unfold under
  rw [Change.perform_makeTable]
  cases strokes with
  | nil => simp [lookup]
  | cons k strokes =>
    rw [if_neg (by simp)]
    cases ho : oldTable stroke bindings with
    | some t =>
      have hf := (h.oldTable ho).2
      conv_lhs => unfold lookup lookupKeyStroke GSKeyBindingTable.bindings
      rw [hf]
      rfl
    | none =>
      have hm : empty.lookup (k :: strokes) = .miss := rfl
      rw [Option.getD_none, hm]
      unfold lookup lookupKeyStroke GSKeyBindingTable.bindings
      cases hf : bindings.find? (·.stroke = stroke) with
      | none => rfl
      | some b =>
        cases b with
        | binding s a sub =>
          have hs : sub = none := by simpa [oldTable, hf] using ho
          subst hs
          cases a <;> simp

theorem refines_dictionary {bindings : List GSKeyBinding} (h : WellFormed (.table bindings))
    (stroke : KeyStroke) {load : GSKeyBindingTable → GSKeyBindingTable}
    {changes : List (Change KeyStroke GSKeyBindingAction)} (hl : ∀ t, WellFormed t → Refines t (load t) changes) :
    Refines (.table bindings) (.table (bindStroke stroke none (fun old => some (load (old.getD empty))) bindings))
      (.makeTable [stroke] :: changes.map (Change.cons stroke)) := by
  have hw : WellFormed ((oldTable stroke bindings).getD empty) := by
    cases ho : oldTable stroke bindings with
    | none => exact wellFormed_empty
    | some t => exact (h.oldTable ho).1
  have hr := hl _ hw
  refine ⟨h.bindStroke (Or.inl rfl) ?_, ?_⟩
  · intro t ht
    obtain rfl := Option.some.inj ht
    exact hr.wellFormed
  · intro strokes
    show _ = performAll (Change.perform (table bindings).lookup (.makeTable [stroke])) _ strokes
    cases strokes with
    | nil =>
      rw [performAll_cons_nil]
      · rfl
      · simp [Change.perform]
    | cons k strokes =>
      rw [performAll_cons]
      by_cases hk : k = stroke
      · subst hk
        rw [if_pos rfl, under_makeTable h, ← hr.lookup]
        conv_lhs => unfold lookup lookupKeyStroke GSKeyBindingTable.bindings
        rw [find_bindStroke, if_pos rfl]
      · rw [if_neg hk, lookup_table_ne hk]
        simp [Change.perform_makeTable, hk]

variable (p : KeyParser)

mutual

theorem bindKey_refines (t : GSKeyBindingTable) (h : WellFormed t) (key : BindingKey)
    (action : BindingValue) : Refines t (bindKey p t key action) (bindingChanges p key action) := by
  have hk : Refines t t [] := ⟨h, fun _ => rfl⟩
  cases t with
  | table bindings =>
    cases hu : unrollKey key action with
    | none =>
      rw [bindKey_none hu, bindingChanges_none hu]
      exact hk
    | some r =>
      obtain ⟨key', value⟩ := r
      by_cases hd : ∃ entries, value = .dictionary entries
      · obtain ⟨entries, rfl⟩ := hd
        rw [bindKey_dictionary hu, bindingChanges_dictionary hu]
        cases p.keyStroke key' with
        | none => exact hk
        | some stroke =>
          have hw := weight_unrollKey hu
          exact refines_dictionary h stroke fun t ht => loadBindings_refines t ht entries
      · have hv : ∀ entries, value ≠ .dictionary entries := fun es he => hd ⟨es, he⟩
        rw [bindKey_leaf hu hv, bindingChanges_leaf hu hv]
        cases p.keyStroke key' with
        | none => exact hk
        | some stroke => exact refines_setLeaf h stroke _
termination_by key.weight + action.weight

theorem loadBindings_refines (t : GSKeyBindingTable) (h : WellFormed t) (entries : BindingDictionary) :
    Refines t (loadBindingsFromDictionary p t entries) (dictionaryChanges p entries) := by
  match entries with
  | [] =>
    unfold loadBindingsFromDictionary dictionaryChanges
    exact ⟨h, fun _ => rfl⟩
  | (key, action) :: entries =>
    unfold loadBindingsFromDictionary dictionaryChanges
    have hf := bindKey_refines t h key action
    have hr := loadBindings_refines _ hf.wellFormed entries
    refine ⟨hr.wellFormed, fun strokes => ?_⟩
    rw [hr.lookup, performAll_append, funext hf.lookup]
termination_by dictionaryWeight entries
decreasing_by
  · simp only [dictionaryWeight]
    omega
  · have := key.weight_pos
    simp only [dictionaryWeight]
    omega

end

end GSKeyBindingTable

/-! ## Runs -/

/-- A message to the table. -/
inductive BindingCall
  | bindKey (key : BindingKey) (action : BindingValue)
  | loadBindings (entries : BindingDictionary)

namespace BindingCall

variable (p : KeyParser)

def perform (t : GSKeyBindingTable) : BindingCall → GSKeyBindingTable
  | bindKey key action => t.bindKey p key action
  | loadBindings entries => t.loadBindingsFromDictionary p entries

def changes : BindingCall → List (Change KeyStroke GSKeyBindingAction)
  | bindKey key action => bindingChanges p key action
  | loadBindings entries => dictionaryChanges p entries

end BindingCall

/-- After any bindings a fresh table answers every sequence of keystrokes as the reference trie does,
and binds each keystroke at most once in each table. -/
theorem lookup_eq_reference (p : KeyParser) (calls : List BindingCall) :
    (calls.foldl (BindingCall.perform p) .empty).WellFormed ∧
      ∀ strokes, (calls.foldl (BindingCall.perform p) .empty).lookup strokes =
        performAll PrefixMap.empty (calls.flatMap (BindingCall.changes p)) strokes := by
  induction calls using List.reverseRecOn with
  | nil =>
    refine ⟨GSKeyBindingTable.wellFormed_empty, fun strokes => ?_⟩
    cases strokes with
    | nil => rfl
    | cons stroke strokes => rfl
  | append_singleton calls call ih =>
    obtain ⟨hw, hl⟩ := ih
    rw [List.foldl_append, List.flatMap_append, performAll_append, List.flatMap_singleton]
    rw [← funext hl]
    cases call with
    | bindKey key action =>
      have hr := GSKeyBindingTable.bindKey_refines p _ hw key action
      exact ⟨hr.wellFormed, hr.lookup⟩
    | loadBindings entries =>
      have hr := GSKeyBindingTable.loadBindings_refines p _ hw entries
      exact ⟨hr.wellFormed, hr.lookup⟩

/-! ## Orders of enumeration -/

/-- A dictionary may be enumerated in any order, and so may those within it: unless the keystrokes of one of its actions
begin those of another entry, a table answers alike whatever the order. -/
theorem loadBindings_perm (p : KeyParser) (t : { t : GSKeyBindingTable // t.WellFormed })
    {entries entries' : BindingDictionary} (hperm : (dictionaryChanges p entries).Perm (dictionaryChanges p entries'))
    (hapart : ∀ c ∈ dictionaryChanges p entries, ∀ c' ∈ dictionaryChanges p entries, c ≠ c' → c.Apart c') :
    (t.1.loadBindingsFromDictionary p entries).lookup = (t.1.loadBindingsFromDictionary p entries').lookup := by
  rw [funext (GSKeyBindingTable.loadBindings_refines p t.1 t.2 entries).lookup,
    funext (GSKeyBindingTable.loadBindings_refines p t.1 t.2 entries').lookup]
  exact performAll_perm hperm hapart _

/-- Each character is a key. -/
def characterKeys : KeyParser := ⟨fun s => s.toList.head?.map fun c => (c.val.toUInt16, 0), fun _ => true⟩

def someBindings : BindingDictionary :=
  [(.string "x", .dictionary [(.string "y", .string "copy:")]), (.string "z", .string "paste:")]

theorem loadBindings_perm_someBindings :
    (GSKeyBindingTable.empty.loadBindingsFromDictionary characterKeys someBindings).lookup =
      (GSKeyBindingTable.empty.loadBindingsFromDictionary characterKeys someBindings.reverse).lookup := by
  refine loadBindings_perm characterKeys ⟨.empty, GSKeyBindingTable.wellFormed_empty⟩ ?_ ?_ <;>
    simp [someBindings, dictionaryChanges, bindingChanges, unrollKey, characterKeys, KeyParser.keyStroke, Change.cons,
      KeyParser.actionFor, Change.Apart]
  exact List.perm_append_singleton _ [_, _]

end GnustepGui.KeyBinding
