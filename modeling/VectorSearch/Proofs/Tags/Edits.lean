import Mathlib.Data.List.Induction
import Mathlib.Data.Set.Card
import VectorSearch.Tags.TagList
/-!
What a list of tags remembers of its edits. It has the keys that were set and not removed since,
each with the value that it was set to last; and of two keys the one that has been there for longer
comes first. Collected tags are set one after another, so a list collects its own tags unchanged.
-/

namespace VectorSearch

inductive TagStep where
  | set (tag : Tag)
  | remove (key : String)
  | clear

namespace TagStep

def concerns (key : String) : TagStep → Bool
  | set tag => tag.key = key
  | remove other => other = key
  | clear => true

def value? : TagStep → Option String
  | set tag => some tag.value
  | remove _ | clear => none

/-- The value of a key after some steps: that of its last set, unless the key was removed or all
keys were cleared since. -/
def valueAfter (steps : List TagStep) (key : String) : Option String :=
  (steps.reverse.find? (·.concerns key)).bind value?

/-- A key has been there since the step at a position: it was absent before that step, and present
after it and after all later ones. -/
structure StandsSince (steps : List TagStep) (key : String) (position : Nat) : Prop where
  inside : position < steps.length
  absent : valueAfter (steps.take position) key = none
  present : ∀ later, position < later → later ≤ steps.length →
    (valueAfter (steps.take later) key).isSome = true

variable {steps : List TagStep} {step : TagStep} {key : String} {position : Nat}

@[simp] theorem valueAfter_concat (steps : List TagStep) (step : TagStep) (key : String) :
    valueAfter (steps ++ [step]) key =
      if step.concerns key then step.value? else valueAfter steps key := by
  simp only [valueAfter, List.reverse_append, List.reverse_singleton, List.singleton_append,
    List.find?_cons]
  split <;> simp_all

theorem StandsSince.of_concat (since : StandsSince (steps ++ [step]) key position)
    (before : (valueAfter steps key).isSome = true) : StandsSince steps key position := by
  have earlier (count : Nat) (few : count ≤ steps.length) :
      (steps ++ [step]).take count = steps.take count := List.take_append_of_le_length few
  obtain ⟨inside, absent, present⟩ := since
  simp only [List.length_append, List.length_singleton] at inside present
  rw [earlier position (by omega)] at absent
  have different : position ≠ steps.length := by
    rintro rfl
    rw [List.take_length] at absent
    simp [absent] at before
  refine ⟨by omega, absent, fun later behind few => ?_⟩
  rw [← earlier later few]
  exact present later behind (by omega)

theorem StandsSince.eq_of_concat (since : StandsSince (steps ++ [step]) key position)
    (before : valueAfter steps key = none) : position = steps.length := by
  obtain ⟨inside, _, present⟩ := since
  simp only [List.length_append, List.length_singleton] at inside present
  by_contra different
  have there := present steps.length (by omega) (by omega)
  simp [before] at there

theorem StandsSince.unique {other : Nat} (since : StandsSince steps key position)
    (also : StandsSince steps key other) : position = other := by
  have apart {first second : Nat} (one : StandsSince steps key first)
      (two : StandsSince steps key second) : ¬ first < second := by
    intro before
    have there := one.present second before two.inside.le
    simp [two.absent] at there
  exact Nat.le_antisymm (Nat.le_of_not_lt (apart also since)) (Nat.le_of_not_lt (apart since also))

theorem exists_standsSince (steps : List TagStep) (key : String)
    (present : (valueAfter steps key).isSome = true) :
    ∃ position, StandsSince steps key position := by
  induction steps using List.reverseRecOn with
  | nil => exact nomatch present
  | append_singleton steps last ih =>
      have earlier (count : Nat) (few : count ≤ steps.length) :
          (steps ++ [last]).take count = steps.take count := List.take_append_of_le_length few
      have whole : (steps ++ [last]).take (steps.length + 1) = steps ++ [last] :=
        List.take_of_length_le (by simp)
      cases before : valueAfter steps key with
      | none =>
          refine ⟨steps.length, by simp, by simp [before], fun later behind few => ?_⟩
          obtain rfl : later = steps.length + 1 := by simp at few; omega
          rw [whole]
          exact present
      | some value =>
          obtain ⟨position, inside, absent, there⟩ := ih (by simp [before])
          refine ⟨position, by simp; omega, by rw [earlier position inside.le]; exact absent, ?_⟩
          intro later behind few
          by_cases last : later ≤ steps.length
          · rw [earlier later last]
            exact there later behind last
          · obtain rfl : later = steps.length + 1 := by simp at few; omega
            rw [whole]
            exact present

end TagStep

def TagEdit.steps : TagEdit → List TagStep
  | .set tag => [.set tag]
  | .remove key => [.remove key]
  | .clear => [.clear]
  | .collect tags => .clear :: tags.map .set

namespace TagList

open TagStep

variable {list : TagList}

def keys (list : TagList) : List String := list.tags.map (·.key)

/-! Single steps. -/

theorem get?_set (list : TagList) (tag : Tag) (key : String) :
    (list.set tag).get? key = if tag.key = key then some tag.value else list.get? key := by
  obtain ⟨tags⟩ := list
  simp only [set, get?]
  induction tags with
  | nil => by_cases same : tag.key = key <;> simp [setIn, same]
  | cons first rest ih =>
      unfold setIn
      by_cases own : first.key = tag.key
      · by_cases same : tag.key = key <;> simp_all
      · by_cases here : first.key = key
        · subst here
          simp [own, Ne.symm own]
        · simpa [own, here] using ih

theorem keys_set (list : TagList) (tag : Tag) :
    (list.set tag).keys = if tag.key ∈ list.keys then list.keys else list.keys ++ [tag.key] := by
  obtain ⟨tags⟩ := list
  simp only [set, keys]
  induction tags with
  | nil => rfl
  | cons first rest ih =>
      unfold setIn
      by_cases own : first.key = tag.key
      · simp [own]
      · have other : tag.key ≠ first.key := Ne.symm own
        by_cases member : tag.key ∈ rest.map (·.key) <;> simp_all

theorem keys_remove (list : TagList) (key : String) :
    (list.remove key).2.keys = list.keys.erase key := by
  obtain ⟨tags⟩ := list
  simp only [remove, keys]
  induction tags with
  | nil => rfl
  | cons first rest ih =>
      unfold removeIn
      by_cases own : first.key = key <;> simp [own, ih]

theorem isSome_get?_iff (list : TagList) (key : String) :
    (list.get? key).isSome = true ↔ key ∈ list.keys := by
  simp [get?, keys]

theorem get?_eq_none_iff (list : TagList) (key : String) :
    list.get? key = none ↔ key ∉ list.keys := by
  rw [← isSome_get?_iff, Bool.not_eq_true, Option.isSome_eq_false_iff, Option.isNone_iff_eq_none]

theorem get?_remove (distinct : list.keys.Nodup) (key other : String) :
    (list.remove key).2.get? other = if key = other then none else list.get? other := by
  by_cases same : key = other
  · rw [if_pos same, get?_eq_none_iff, keys_remove, ← same]
    exact distinct.not_mem_erase
  · rw [if_neg same]
    obtain ⟨tags⟩ := list
    simp only [remove, get?]
    clear distinct
    induction tags with
    | nil => rfl
    | cons first rest ih =>
        unfold removeIn
        by_cases own : first.key = key
        · simp [own, same]
        · by_cases here : first.key = other
          · subst here
            simp [own]
          · simpa [own, here] using ih

def step (list : TagList) : TagStep → TagList
  | .set tag => list.set tag
  | .remove key => (list.remove key).2
  | .clear => list.clear

theorem edit_eq_foldl (list : TagList) (edit : TagEdit) :
    list.edit edit = edit.steps.foldl step list := by
  cases edit with
  | set tag | remove key | clear => rfl
  | collect tags => simp only [TagList.edit, TagEdit.steps, List.foldl_cons, List.foldl_map]; rfl

theorem editAll_eq_foldl (list : TagList) (edits : List TagEdit) :
    list.editAll edits = (edits.flatMap TagEdit.steps).foldl step list := by
  induction edits generalizing list with
  | nil => rfl
  | cons first rest ih =>
      simp only [List.flatMap_cons, List.foldl_append, ← edit_eq_foldl]
      exact ih _

/-! Remembered steps. -/

/-- A list is what some steps make of an empty one, as far as it can be told from outside. -/
structure Remembers (list : TagList) (steps : List TagStep) : Prop where
  distinct : list.keys.Nodup
  value : ∀ key, list.get? key = valueAfter steps key
  ordered : list.keys.Pairwise fun first second =>
    ∀ since later, StandsSince steps first since → StandsSince steps second later → since < later

variable {steps : List TagStep}

theorem Remembers.mem_keys (remembers : list.Remembers steps) (key : String) :
    key ∈ list.keys ↔ (valueAfter steps key).isSome = true := by
  rw [← remembers.value, isSome_get?_iff]

theorem Remembers.ordered_concat (remembers : list.Remembers steps) (last : TagStep)
    {kept : List String} (stay : kept.Sublist list.keys) :
    kept.Pairwise fun first second => ∀ since later,
      StandsSince (steps ++ [last]) first since → StandsSince (steps ++ [last]) second later →
        since < later := by
  refine (remembers.ordered.sublist stay).imp_of_mem fun one two before since later => ?_
  have there {key : String} (member : key ∈ kept) :=
    (remembers.mem_keys key).mp (stay.subset member)
  exact fun first second =>
    before since later (first.of_concat (there one)) (second.of_concat (there two))

theorem Remembers.step (remembers : list.Remembers steps) (last : TagStep) :
    (list.step last).Remembers (steps ++ [last]) := by
  cases last with
  | set tag =>
      refine ⟨?_, fun key => ?_, ?_⟩
      · show (list.set tag).keys.Nodup
        rw [keys_set]
        split
        · exact remembers.distinct
        · exact remembers.distinct.append (List.nodup_singleton _) (by simpa)
      · simp [TagList.step, get?_set, concerns, value?, remembers.value]
      · show (list.set tag).keys.Pairwise _
        rw [keys_set]
        split
        · exact remembers.ordered_concat _ (List.Sublist.refl _)
        · rename_i absent
          refine List.pairwise_append.mpr ⟨remembers.ordered_concat _ (List.Sublist.refl _),
            List.pairwise_singleton _ _, fun first member second same since later one two => ?_⟩
          obtain rfl := List.mem_singleton.mp same
          have old := one.of_concat ((remembers.mem_keys first).mp member)
          rw [← get?_eq_none_iff, remembers.value] at absent
          exact two.eq_of_concat absent ▸ old.inside
  | remove key =>
      refine ⟨?_, fun other => ?_, ?_⟩
      · show (list.remove key).2.keys.Nodup
        rw [keys_remove]
        exact remembers.distinct.erase key
      · simp [TagList.step, get?_remove remembers.distinct, concerns, value?, remembers.value]
      · show (list.remove key).2.keys.Pairwise _
        rw [keys_remove]
        exact remembers.ordered_concat _ List.erase_sublist
  | clear =>
      refine ⟨List.nodup_nil, fun key => ?_, List.Pairwise.nil⟩
      simp [TagList.step, clear, empty, get?, concerns, value?]

theorem remembers_steps (steps : List TagStep) : (steps.foldl step empty).Remembers steps := by
  induction steps using List.reverseRecOn with
  | nil => exact ⟨List.nodup_nil, fun _ => rfl, List.Pairwise.nil⟩
  | append_singleton steps last ih =>
      rw [List.foldl_concat]
      exact ih.step last

/-! Collected tags. -/

theorem ofTags_concat (tags : List Tag) (last : Tag) :
    ofTags (tags ++ [last]) = (ofTags tags).set last := by
  simp [ofTags]

theorem eraseDups_concat (keys : List String) (last : String) :
    (keys ++ [last]).eraseDups =
      if last ∈ keys then keys.eraseDups else keys.eraseDups ++ [last] := by
  rw [List.eraseDups_append]
  split
  · rename_i known
    simp [List.removeAll, known]
  · rename_i new
    have kept : [last].removeAll keys = [last] := by simp [List.removeAll, new]
    rw [kept]
    rfl

theorem keys_ofTags (tags : List Tag) : (ofTags tags).keys = (tags.map (·.key)).eraseDups := by
  induction tags using List.reverseRecOn with
  | nil => rfl
  | append_singleton tags last ih =>
      rw [ofTags_concat, keys_set, List.map_append, List.map_singleton, eraseDups_concat]
      simp only [ih, List.mem_eraseDups]

theorem get?_ofTags (tags : List Tag) (key : String) :
    (ofTags tags).get? key = (tags.reverse.find? (·.key = key)).map (·.value) := by
  induction tags using List.reverseRecOn with
  | nil => rfl
  | append_singleton tags last ih =>
      rw [ofTags_concat, get?_set, ih]
      by_cases same : last.key = key <;> simp [same]

theorem foldl_set_of_nodup (tags : List Tag) :
    ∀ done : List Tag, ((done ++ tags).map (·.key)).Nodup →
      tags.foldl set ⟨done⟩ = ⟨done ++ tags⟩ := by
  induction tags with
  | nil => intro done _; simp
  | cons first rest ih =>
      intro done distinct
      have absent : ∀ tag ∈ done, tag.key ≠ first.key := by
        intro tag member same
        simp only [List.map_append, List.map_cons, List.nodup_append] at distinct
        exact distinct.2.2 tag.key (List.mem_map_of_mem member) first.key (by simp) same
      have placed : ∀ tags : List Tag, (∀ tag ∈ tags, tag.key ≠ first.key) →
          setIn first tags = tags ++ [first] := by
        intro tags others
        induction tags with
        | nil => rfl
        | cons tag tags ih => simp_all [setIn]
      rw [List.foldl_cons, set, placed done absent, ih _ (by simpa using distinct)]
      simp

theorem ofTags_tags (distinct : list.keys.Nodup) : ofTags list.tags = list :=
  foldl_set_of_nodup list.tags [] distinct

theorem ofTags_eq_editAll (tags : List Tag) : ofTags tags = empty.editAll (tags.map .set) := by
  rw [editAll, List.foldl_map]
  rfl

theorem Remembers.size_eq (remembers : list.Remembers steps) :
    list.size = {key | (valueAfter steps key).isSome = true}.ncard := by
  have present : {key | (valueAfter steps key).isSome = true} = ↑list.keys.toFinset := by
    ext key
    simp [← remembers.mem_keys]
  rw [present, Set.ncard_coe_finset, List.toFinset_card_of_nodup remembers.distinct, keys,
    List.length_map, size]

/-- After any edits a list has the keys that were set and neither removed nor cleared since, each of
them once, with the value of its last set and behind the keys that have been there for longer.
Collecting tags is setting them one by one in a cleared list: each key keeps its first place and its
last value, and the tags of the list are collected as they are. -/
theorem editAll_remembers (edits : List TagEdit) :
    let list := empty.editAll edits
    let steps := edits.flatMap TagEdit.steps
    (list.tags.map (·.key)).Nodup ∧
    (∀ key, list.get? key = valueAfter steps key) ∧
    (∀ key ∈ list.tags.map (·.key), ∃! since, StandsSince steps key since) ∧
    ((list.tags.map (·.key)).Pairwise fun first second => ∀ since later,
      StandsSince steps first since → StandsSince steps second later → since < later) ∧
    list.size = {key | (valueAfter steps key).isSome = true}.ncard ∧
    (∀ tags, let collected := list.edit (.collect tags)
      collected = list.clear.editAll (tags.map .set) ∧
      collected.tags.map (·.key) = (tags.map (·.key)).eraseDups ∧
      ∀ key, collected.get? key = (tags.reverse.find? (·.key = key)).map (·.value)) ∧
    list.edit (.collect list.tags) = list := by
  intro list steps
  have remembers : list.Remembers steps := by
    rw [show list = steps.foldl step empty from editAll_eq_foldl empty edits]
    exact remembers_steps steps
  refine ⟨remembers.distinct, remembers.value, fun key member => ?_, remembers.ordered,
    remembers.size_eq, fun tags => ?_, ofTags_tags remembers.distinct⟩
  · obtain ⟨since, stands⟩ := exists_standsSince steps key ((remembers.mem_keys key).mp member)
    exact ⟨since, stands, fun other also => also.unique stands⟩
  · exact ⟨ofTags_eq_editAll tags, keys_ofTags tags, get?_ofTags tags⟩

example : (empty.editAll [.collect [⟨"color", "red"⟩, ⟨"size", "xl"⟩], .remove "color",
    .set ⟨"color", "blue"⟩, .set ⟨"size", "s"⟩]).tags = [⟨"size", "s"⟩, ⟨"color", "blue"⟩] := by
  decide

end TagList

end VectorSearch
