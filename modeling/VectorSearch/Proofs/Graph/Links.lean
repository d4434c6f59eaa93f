import Mathlib.Data.List.Pairwise
import VectorSearch.Index.Graph.Links
import VectorSearch.Proofs.Store
/-!
Link sets and link tables. A set stays ascending and has the links that were put into it. Changing
the links of a node on one of its layers changes nothing else: every node keeps its layers, and
all other sets stay as they were.
-/

namespace VectorSearch

/-! Values changed in a table. -/

section

open Std.DTreeMap.Internal

variable {α β : Type} [Ord α]

theorem implModify_congr {key : α} {change other : β → β} (tree : Impl α fun _ => β)
    (same : ∀ value, Impl.Const.get? tree key = some value → change value = other value) :
    Impl.Const.modify key change tree = Impl.Const.modify key other tree := by
  induction tree with
  | leaf => rfl
  | inner size node value left right ihLeft ihRight =>
      rw [Impl.Const.modify, Impl.Const.modify]
      rw [Impl.Const.get?] at same
      cases place : compare key node with
      | lt => simp only [ihLeft (by simpa only [place] using same)]
      | gt => simp only [ihRight (by simpa only [place] using same)]
      | eq => simp only [same value (by simp only [place])]

theorem implModify_modify [Std.ReflOrd α] (key : α) (first second : β → β)
    (tree : Impl α fun _ => β) :
    Impl.Const.modify key second (Impl.Const.modify key first tree) =
      Impl.Const.modify key (fun value => second (first value)) tree := by
  induction tree with
  | leaf => rfl
  | inner size node value left right ihLeft ihRight =>
      rw [Impl.Const.modify, Impl.Const.modify]
      cases place : compare key node with
      | lt => simp only [Impl.Const.modify, place, ihLeft]
      | gt => simp only [Impl.Const.modify, place, ihRight]
      | eq => simp only [Impl.Const.modify, Std.ReflOrd.compare_self]

end

variable {β : Type}

theorem modify_congr {table : Std.TreeMap VectorId β} {key : VectorId} {change other : β → β}
    (same : ∀ value, table.get? key = some value → change value = other value) :
    table.modify key change = table.modify key other := by
  unfold Std.TreeMap.modify Std.DTreeMap.Const.modify
  simp only [implModify_congr _ same]

theorem modify_modify (table : Std.TreeMap VectorId β) (key : VectorId) (first second : β → β) :
    (table.modify key first).modify key second =
      table.modify key fun value => second (first value) := by
  unfold Std.TreeMap.modify Std.DTreeMap.Const.modify
  simp only [implModify_modify]

namespace LinkSet

theorem mem_insert (id other : VectorId) (links : LinkSet) :
    other ∈ LinkSet.insert id links ↔ other = id ∨ other ∈ links := by
  induction links with
  | nil => simp [LinkSet.insert]
  | cons first rest ih =>
      unfold LinkSet.insert
      split
      · exact List.mem_cons
      · split
        · rename_i same
          subst same
          simp
        · rw [List.mem_cons, List.mem_cons, ih, or_left_comm]

theorem length_insert_le (id : VectorId) (links : LinkSet) :
    (LinkSet.insert id links).length ≤ links.length + 1 := by
  induction links with
  | nil => exact Nat.le_refl _
  | cons first rest ih =>
      unfold LinkSet.insert
      split
      · exact Nat.le_refl _
      · split
        · exact Nat.le_succ _
        · exact Nat.succ_le_succ ih

theorem insert_perm {id : VectorId} {links : LinkSet} (absent : id ∉ links) :
    (LinkSet.insert id links).Perm (id :: links) := by
  induction links with
  | nil => exact List.Perm.refl _
  | cons first rest ih =>
      rw [List.mem_cons, not_or] at absent
      unfold LinkSet.insert
      rw [if_neg absent.1]
      split
      · exact List.Perm.refl _
      · exact ((ih absent.2).cons first).trans (List.Perm.swap id first rest)

theorem ascending_insert (id : VectorId) {links : LinkSet} (ascending : links.Pairwise (· < ·)) :
    (LinkSet.insert id links).Pairwise (· < ·) := by
  induction links with
  | nil => exact List.pairwise_singleton _ _
  | cons first rest ih =>
      obtain ⟨behind, tail⟩ := List.pairwise_cons.mp ascending
      unfold LinkSet.insert
      split
      · rename_i before
        refine List.pairwise_cons.mpr ⟨fun other member => ?_, ascending⟩
        rcases List.mem_cons.mp member with rfl | later
        · exact before
        · exact Nat.lt_trans before (behind other later)
      · rename_i notBefore
        split
        · exact ascending
        · rename_i different
          refine List.pairwise_cons.mpr ⟨fun other member => ?_, ih tail⟩
          rcases (mem_insert id other rest).mp member with rfl | old
          · exact Nat.lt_of_le_of_ne (Nat.le_of_not_lt notBefore) (Ne.symm different)
          · exact behind other old

theorem mem_insertAll (ids : List VectorId) (other : VectorId) :
    ∀ links : LinkSet, other ∈ LinkSet.insertAll ids links ↔ other ∈ ids ∨ other ∈ links := by
  induction ids with
  | nil => intro links; simp [insertAll]
  | cons first rest ih =>
      intro links
      refine (ih (LinkSet.insert first links)).trans ?_
      rw [mem_insert, List.mem_cons, or_assoc, or_left_comm]

theorem length_insertAll_le (ids : List VectorId) :
    ∀ links : LinkSet, (LinkSet.insertAll ids links).length ≤ links.length + ids.length := by
  induction ids with
  | nil => intro links; exact Nat.le_refl _
  | cons first rest ih =>
      intro links
      have added := length_insert_le first links
      have others := ih (LinkSet.insert first links)
      rw [List.length_cons]
      exact others.trans (by omega)

theorem ascending_insertAll (ids : List VectorId) :
    ∀ links : LinkSet, links.Pairwise (· < ·) →
      (LinkSet.insertAll ids links).Pairwise (· < ·) := by
  induction ids with
  | nil => intro links ascending; exact ascending
  | cons first rest ih =>
      intro links ascending
      exact ih _ (ascending_insert first ascending)

theorem insertAll_concat (ids : List VectorId) (last : VectorId) (links : LinkSet) :
    LinkSet.insertAll (ids ++ [last]) links =
      LinkSet.insert last (LinkSet.insertAll ids links) := by
  simp [insertAll]

theorem eq_of_mem_iff {links others : LinkSet} (ascending : links.Pairwise (· < ·))
    (otherAscending : others.Pairwise (· < ·)) (same : ∀ id, id ∈ links ↔ id ∈ others) :
    links = others := by
  have perm := (List.perm_ext_iff_of_nodup (ascending.imp Nat.ne_of_lt)
    (otherAscending.imp Nat.ne_of_lt)).mpr same
  exact perm.eq_of_pairwise (fun _ _ _ _ less more => absurd less (Nat.lt_asymm more)) ascending
    otherAscending

end LinkSet

namespace LinkTable

def height (table : LinkTable) (id : VectorId) : Nat := ((table.get? id).getD []).length

theorem linksAt_of_height_le {table : LinkTable} {layer : Nat} {id : VectorId}
    (above : table.height id ≤ layer) : table.linksAt layer id = [] := by
  unfold linksAt linksAt?
  unfold height at above
  cases found : table.get? id with
  | none => rfl
  | some layers =>
      rw [found, Option.getD_some] at above
      rw [Option.bind_some, List.getElem?_eq_none above, Option.getD_none]

theorem lt_height_of_mem {table : LinkTable} {layer : Nat} {id link : VectorId}
    (member : link ∈ table.linksAt layer id) : layer < table.height id := by
  by_contra above
  rw [linksAt_of_height_le (Nat.le_of_not_lt above)] at member
  exact List.not_mem_nil member

theorem contains_of_height {table : LinkTable} {id : VectorId} (layers : 0 < table.height id) :
    table.contains id = true := by
  unfold height at layers
  rw [Std.TreeMap.contains_eq_isSome_getElem?, ← Std.TreeMap.get?_eq_getElem?]
  cases found : table.get? id with
  | none => rw [found] at layers; exact absurd layers (Nat.lt_irrefl 0)
  | some _ => rfl

theorem height_eq_zero {table : LinkTable} {id : VectorId} (absent : table.contains id = false) :
    table.height id = 0 := by
  by_contra layers
  rw [contains_of_height (Nat.pos_of_ne_zero layers)] at absent
  exact absurd absent (by decide : ¬ true = false)

/-! New nodes. -/

theorem contains_addNode (table : LinkTable) (id : VectorId) (level : Nat) (other : VectorId) :
    (table.addNode id level).contains other = true ↔ other = id ∨ table.contains other = true := by
  rw [addNode, Std.TreeMap.contains_insert, Bool.or_eq_true, beq_iff_eq, Nat.compare_eq_eq]
  exact or_congr_left eq_comm

theorem height_addNode (table : LinkTable) (id : VectorId) (level : Nat) (other : VectorId) :
    (table.addNode id level).height other =
      if id = other then level + 1 else table.height other := by
  unfold addNode height
  rw [get?_insert]
  split
  · rw [Option.getD_some, List.length_replicate]
  · rfl

theorem linksAt_addNode (table : LinkTable) (id : VectorId) (level layer : Nat)
    (other : VectorId) :
    (table.addNode id level).linksAt layer other =
      if id = other then [] else table.linksAt layer other := by
  unfold addNode linksAt linksAt?
  rw [get?_insert]
  split
  · rw [Option.bind_some, List.getElem?_replicate]
    split <;> rfl
  · rfl

/-! Changed links. -/

theorem get?_modifyLinks (table : LinkTable) (layer : Nat) (id : VectorId)
    (change : LinkSet → LinkSet) (other : VectorId) :
    (table.modifyLinks layer id change).get? other =
      (table.get? other).map fun layers =>
        if id = other then layers.modify layer change else layers := by
  rw [modifyLinks, Std.TreeMap.get?_eq_getElem?, Std.TreeMap.getElem?_modify,
    Std.TreeMap.get?_eq_getElem?]
  by_cases same : id = other
  · subst same
    simp
  · simp [same]

@[simp] theorem contains_modifyLinks (table : LinkTable) (layer : Nat) (id : VectorId)
    (change : LinkSet → LinkSet) (other : VectorId) :
    (table.modifyLinks layer id change).contains other = table.contains other :=
  Std.TreeMap.contains_modify

@[simp] theorem height_modifyLinks (table : LinkTable) (layer : Nat) (id : VectorId)
    (change : LinkSet → LinkSet) (other : VectorId) :
    (table.modifyLinks layer id change).height other = table.height other := by
  unfold height
  rw [get?_modifyLinks]
  cases table.get? other with
  | none => rfl
  | some layers =>
      rw [Option.map_some, Option.getD_some, Option.getD_some]
      split
      · exact List.length_modify ..
      · rfl

theorem linksAt_modifyLinks (table : LinkTable) (layer : Nat) (id : VectorId)
    (change : LinkSet → LinkSet) (inside : layer < table.height id) (other : Nat)
    (node : VectorId) :
    (table.modifyLinks layer id change).linksAt other node =
      if id = node ∧ layer = other then change (table.linksAt layer id)
      else table.linksAt other node := by
  unfold linksAt linksAt?
  rw [get?_modifyLinks]
  by_cases same : id = node
  · subst same
    unfold height at inside
    cases found : table.get? id with
    | none => rw [found] at inside; exact absurd inside (Nat.not_lt_zero _)
    | some layers =>
        rw [found, Option.getD_some] at inside
        simp only [Option.map_some, if_true, true_and, Option.bind_some, List.getElem?_modify]
        by_cases here : layer = other
        · subst here
          simp [inside]
        · simp [here]
  · simp [same]

theorem modifyLinks_congr {table : LinkTable} {layer : Nat} {id : VectorId}
    {change other : LinkSet → LinkSet}
    (same : ∀ links, table.linksAt? layer id = some links → change links = other links) :
    table.modifyLinks layer id change = table.modifyLinks layer id other := by
  refine modify_congr fun layers found => List.ext_getElem? fun position => ?_
  rw [List.getElem?_modify, List.getElem?_modify]
  by_cases here : layer = position
  · subst here
    cases stored : layers[layer]? with
    | none => rfl
    | some links =>
        have present : table.linksAt? layer id = some links := by
          rw [linksAt?, found]
          exact stored
        simp only [Option.map_eq_map, Option.map_some, if_true, same links present]
  · simp only [if_neg here]

theorem modifyLinks_modifyLinks (table : LinkTable) (layer : Nat) (id : VectorId)
    (first second : LinkSet → LinkSet) :
    (table.modifyLinks layer id first).modifyLinks layer id second =
      table.modifyLinks layer id fun links => second (first links) := by
  rw [modifyLinks, modifyLinks, modify_modify, modifyLinks]
  exact modify_congr fun layers _ => List.modify_modify_eq ..

end LinkTable

end VectorSearch
