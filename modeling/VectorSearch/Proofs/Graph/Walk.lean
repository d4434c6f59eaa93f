import Mathlib.Data.Set.Card
import VectorSearch.Proofs.Best
import VectorSearch.Proofs.Graph.Structure
/-!
How a greedy descent ends. A walk that is given no limit on its steps moves to a better node with
every step, so it visits no node twice and ends where no neighbour is better. The limit that a
descent has is never what ends it. Nothing is assumed of the links; scores may be undefined.
-/

namespace VectorSearch

namespace Descent

variable {links : VectorId → List VectorId} {score : VectorId → Option Float32}

def Beats (score : VectorId → Option Float32) (first second : VectorId) : Prop :=
  ∃ firstScore secondScore, score first = some firstScore ∧ score second = some secondScore ∧
    (Hit.mk first firstScore).RanksAbove ⟨second, secondScore⟩

theorem beats_iff {first second : Hit} (firstScored : score first.id = some first.score)
    (secondScored : score second.id = some second.score) :
    Beats score first.id second.id ↔ first.RanksAbove second := by
  constructor
  · rintro ⟨firstScore, secondScore, one, two, above⟩
    rw [firstScored, Option.some.injEq] at one
    rw [secondScored, Option.some.injEq] at two
    subst one two
    exact above
  · exact fun above => ⟨_, _, firstScored, secondScored, above⟩

theorem Beats.trans {first second third : VectorId} (ahead : Beats score first second)
    (behind : Beats score second third) : Beats score first third := by
  obtain ⟨firstScore, secondScore, one, two, above⟩ := ahead
  obtain ⟨again, thirdScore, same, three, below⟩ := behind
  obtain rfl : secondScore = again := Option.some.inj (two.symm.trans same)
  exact ⟨firstScore, thirdScore, one, three, above.trans below⟩

theorem not_beats_self (node : VectorId) : ¬ Beats score node node := by
  rintro ⟨value, again, one, two, above⟩
  obtain rfl : value = again := Option.some.inj (one.symm.trans two)
  exact above.asymm above

/-! One move. -/

theorem improves_iff (candidate current : Hit) :
    improves candidate current = true ↔ candidate.RanksAbove current := by
  simp [improves, Hit.RanksAbove]

theorem bestOf_singleton {current : Hit} (scored : score current.id = some current.score)
    (neighbor : VectorId) :
    let best := bestOf score current [neighbor]
    score best.id = some best.score ∧
    (best = current ∨ best.id = neighbor ∧ best.RanksAbove current) ∧
    ∀ value, score neighbor = some value → ¬ (Hit.mk neighbor value).RanksAbove best := by
  cases neighborScored : score neighbor with
  | none =>
      have kept : bestOf score current [neighbor] = current := by simp [bestOf, neighborScored]
      rw [kept]
      exact ⟨scored, Or.inl rfl, nofun⟩
  | some value =>
      by_cases above : (Hit.mk neighbor value).RanksAbove current
      · have kept : bestOf score current [neighbor] = ⟨neighbor, value⟩ := by
          simp [bestOf, neighborScored, (improves_iff _ _).mpr above]
        rw [kept]
        refine ⟨neighborScored, Or.inr ⟨rfl, above⟩, fun other same ahead => ?_⟩
        obtain rfl := Option.some.inj same
        exact ahead.asymm ahead
      · have kept : bestOf score current [neighbor] = current := by
          simp [bestOf, neighborScored, improves_iff, above]
        rw [kept]
        refine ⟨scored, Or.inl rfl, fun other same => ?_⟩
        obtain rfl := Option.some.inj same
        exact above

theorem bestOf_best (neighbors : List VectorId) :
    ∀ current : Hit, score current.id = some current.score →
      let best := bestOf score current neighbors
      score best.id = some best.score ∧
      (best = current ∨ best.id ∈ neighbors ∧ best.RanksAbove current) ∧
      ∀ neighbor ∈ neighbors, ∀ value, score neighbor = some value →
        ¬ (Hit.mk neighbor value).RanksAbove best := by
  induction neighbors with
  | nil => intro current scored; exact ⟨scored, Or.inl rfl, by simp⟩
  | cons first rest ih =>
      intro current scored
      have parts : bestOf score current (first :: rest) =
          bestOf score (bestOf score current [first]) rest := rfl
      obtain ⟨keptScored, near, notFirst⟩ := bestOf_singleton scored first
      rw [parts]
      generalize bestOf score current [first] = kept at keptScored near notFirst ⊢
      obtain ⟨bestScored, place, none⟩ := ih kept keptScored
      refine ⟨bestScored, ?_, fun neighbor member value neighborScored above => ?_⟩
      · rcases place with same | ⟨member, ahead⟩
        · rw [same]
          exact near.imp_right fun moved => ⟨List.mem_cons.mpr (Or.inl moved.1), moved.2⟩
        · refine Or.inr ⟨List.mem_cons_of_mem _ member, ?_⟩
          rcases near with rfl | ⟨_, above⟩
          · exact ahead
          · exact ahead.trans above
      · rcases List.mem_cons.mp member with rfl | later
        · rcases place with same | ⟨_, ahead⟩
          · exact notFirst value neighborScored (same ▸ above)
          · exact notFirst value neighborScored (above.trans ahead)
        · exact none neighbor later value neighborScored above

def next? (links : VectorId → List VectorId) (score : VectorId → Option Float32)
    (current : VectorId) : Option VectorId :=
  (score current).bind fun value =>
    let best := bestOf score ⟨current, value⟩ (links current)
    if best.id = current then none else some best.id

theorem beats_of_next? {current next : VectorId} (moved : next? links score current = some next) :
    next ∈ links current ∧ Beats score next current := by
  obtain ⟨value, scored, chosen⟩ := Option.bind_eq_some_iff.mp moved
  obtain ⟨bestScored, place, _⟩ := bestOf_best (links current) ⟨current, value⟩ scored
  dsimp only at chosen
  split at chosen
  · cases chosen
  · rename_i elsewhere
    obtain rfl := Option.some.inj chosen
    rcases place with same | ⟨member, above⟩
    · exact absurd (congrArg Hit.id same) elsewhere
    · exact ⟨member, (beats_iff bestScored scored).mpr above⟩

theorem next?_eq_none_iff (current : VectorId) :
    next? links score current = none ↔ ∀ link ∈ links current, ¬ Beats score link current := by
  constructor
  · rintro stopped link member ⟨linkScore, value, linkScored, scored, above⟩
    obtain ⟨bestScored, place, none⟩ := bestOf_best (links current) ⟨current, value⟩ scored
    rcases place with same | ⟨_, bestAbove⟩
    · refine none link member linkScore linkScored ?_
      rw [same]
      exact above
    · simp only [next?, scored, Option.bind_some, ite_eq_left_iff] at stopped
      have here := by_contra fun elsewhere => Option.some_ne_none _ (stopped elsewhere)
      have beaten := (beats_iff bestScored scored).mpr bestAbove
      rw [here] at beaten
      exact not_beats_self current beaten
  · intro none
    rw [Option.eq_none_iff_forall_ne_some]
    intro next moved
    obtain ⟨member, ahead⟩ := beats_of_next? moved
    exact none next member ahead

theorem walkFrom_succ (steps : Nat) (current : VectorId) :
    walkFrom links score (steps + 1) current =
      match next? links score current with
      | none => current
      | some next => walkFrom links score steps next := by
  rw [walkFrom, next?]
  cases score current with
  | none => rfl
  | some value =>
      dsimp only [Option.bind_some]
      split <;> rfl

/-! Walks on one layer. -/

/-- A walk without a limit on its steps: the nodes that it visits, and the one where it ends. -/
inductive Walk (links : VectorId → List VectorId) (score : VectorId → Option Float32) :
    VectorId → List VectorId → VectorId → Prop
  | stop {current} : next? links score current = none → Walk links score current [current] current
  | move {current next final trail} : next? links score current = some next →
      Walk links score next trail final → Walk links score current (current :: trail) final

theorem Walk.unique {current first second : VectorId} {trail others : List VectorId}
    (walk : Walk links score current trail first) (other : Walk links score current others second) :
    trail = others ∧ first = second := by
  induction walk generalizing others with
  | stop stopped =>
      cases other with
      | stop _ => exact ⟨rfl, rfl⟩
      | move moved _ => exact nomatch stopped.symm.trans moved
  | move moved _ ih =>
      cases other with
      | stop stopped => exact nomatch stopped.symm.trans moved
      | move again rest =>
          obtain rfl := Option.some.inj (moved.symm.trans again)
          obtain ⟨same, sameEnd⟩ := ih rest
          exact ⟨congrArg _ same, sameEnd⟩

theorem Walk.ascending {current final : VectorId} {trail : List VectorId}
    (walk : Walk links score current trail final) :
    trail.Pairwise fun earlier later => Beats score later earlier := by
  suffices better : trail.Pairwise (fun earlier later => Beats score later earlier) ∧
      ∀ node ∈ trail, node = current ∨ Beats score node current from better.1
  induction walk with
  | stop _ => exact ⟨List.pairwise_singleton _ _, by simp⟩
  | @move current next final trail moved _ ih =>
      obtain ⟨ascending, above⟩ := ih
      have ahead := (beats_of_next? moved).2
      have later (node : VectorId) (member : node ∈ trail) : Beats score node current := by
        rcases above node member with rfl | beyond
        · exact ahead
        · exact beyond.trans ahead
      refine ⟨List.pairwise_cons.mpr ⟨later, ascending⟩, fun node member => ?_⟩
      exact (List.mem_cons.mp member).imp_right (later node)

theorem Walk.nodup {current final : VectorId} {trail : List VectorId}
    (walk : Walk links score current trail final) : trail.Nodup := by
  refine walk.ascending.imp ?_
  rintro node _ ahead rfl
  exact not_beats_self node ahead

theorem Walk.final_best {current final : VectorId} {trail : List VectorId}
    (walk : Walk links score current trail final) :
    (final = current ∨ Beats score final current) ∧
      ∀ link ∈ links final, ¬ Beats score link final := by
  induction walk with
  | stop stopped => exact ⟨Or.inl rfl, (next?_eq_none_iff _).mp stopped⟩
  | move moved _ ih =>
      obtain ⟨place, none⟩ := ih
      have ahead := (beats_of_next? moved).2
      refine ⟨Or.inr ?_, none⟩
      rcases place with rfl | beyond
      · exact ahead
      · exact beyond.trans ahead

theorem walkFrom_eq_of_walk {current final : VectorId} {trail : List VectorId}
    (walk : Walk links score current trail final) :
    ∀ {steps : Nat}, trail.length ≤ steps + 1 → walkFrom links score steps current = final := by
  induction walk with
  | stop stopped =>
      intro steps _
      cases steps with
      | zero => rfl
      | succ steps => rw [walkFrom_succ, stopped]
  | move moved rest ih =>
      intro steps enough
      cases steps with
      | zero => cases rest <;> simp at enough
      | succ steps =>
          rw [walkFrom_succ, moved]
          exact ih (by simpa using enough)

/-! Every walk ends: with each move fewer nodes are better. -/

def better (score : VectorId → Option Float32) (current : VectorId) : Set VectorId :=
  {node | Beats score node current}

section

variable {nodes : Finset VectorId} (all : ∀ id, (score id).isSome = true → id ∈ nodes)
include all

theorem better_subset (current : VectorId) : better score current ⊆ nodes := by
  rintro node ⟨value, _, scored, _, _⟩
  exact all node (Option.isSome_of_eq_some scored)

theorem finite_better (current : VectorId) : (better score current).Finite :=
  nodes.finite_toSet.subset (better_subset all current)

theorem ncard_better_lt {current next : VectorId} (ahead : Beats score next current) :
    (better score next).ncard < (better score current).ncard := by
  refine Set.ncard_lt_ncard (Set.ssubset_iff_exists.mpr ?_) (finite_better all current)
  exact ⟨fun _ beyond => Beats.trans beyond ahead, next, ahead, not_beats_self next⟩

theorem ncard_better_le (current : VectorId) :
    (better score current).ncard ≤ nodes.card - 1 := by
  rcases (better score current).eq_empty_or_nonempty with none | ⟨node, ahead⟩
  · rw [none, Set.ncard_empty]
    exact Nat.zero_le _
  · -- A node that others are better than has a score, and is not among them.
    obtain ⟨_, value, _, scored, _⟩ := ahead
    have inside := all current (Option.isSome_of_eq_some scored)
    rw [← Finset.card_erase_of_mem inside, ← Set.ncard_coe_finset]
    refine Set.ncard_le_ncard (fun other beyond => ?_) (Finset.finite_toSet _)
    refine Finset.mem_coe.mpr (Finset.mem_erase.mpr ⟨?_, better_subset all current beyond⟩)
    rintro rfl
    exact not_beats_self other beyond

theorem exists_walk_of_ncard (links : VectorId → List VectorId) (rank : Nat) :
    ∀ current, (better score current).ncard ≤ rank →
      ∃ trail final, Walk links score current trail final ∧ trail.length ≤ rank + 1 := by
  induction rank with
  | zero =>
      intro current few
      refine ⟨_, _, Walk.stop (Option.eq_none_iff_forall_ne_some.mpr fun next moved => ?_), by simp⟩
      have fewer := ncard_better_lt all (beats_of_next? moved).2
      omega
  | succ rank ih =>
      intro current few
      cases place : next? links score current with
      | none => exact ⟨_, _, Walk.stop place, by simp⟩
      | some next =>
          have fewer := ncard_better_lt all (beats_of_next? place).2
          obtain ⟨trail, final, walk, short⟩ := ih next (by omega)
          exact ⟨_, _, Walk.move place walk, by simpa using short⟩

theorem exists_walk (links : VectorId → List VectorId) (current : VectorId) :
    ∃ trail final, Walk links score current trail final ∧ trail.length ≤ max nodes.card 1 := by
  obtain ⟨trail, final, walk, short⟩ :=
    exists_walk_of_ncard all links _ current (ncard_better_le all current)
  exact ⟨trail, final, walk, by omega⟩

theorem Walk.length_le {current final : VectorId} {trail : List VectorId}
    (walk : Walk links score current trail final) : trail.length ≤ max nodes.card 1 := by
  obtain ⟨others, _, other, short⟩ := exists_walk all links current
  rwa [(walk.unique other).1]

end

/-! Walks on several layers. -/

/-- Walks without a limit on some layers, from the highest to `low`, each one going on from where
the one above ended: the nodes visited on each layer, and the node where the lowest walk ends. -/
inductive Descends (links : Nat → VectorId → List VectorId) (score : VectorId → Option Float32)
    (low : Nat) : Nat → VectorId → List (List VectorId) → VectorId → Prop
  | done {current} : Descends links score low 0 current [] current
  | layer {count current next final trail trails} :
      Walk (links (low + count)) score current trail next →
      Descends links score low count next trails final →
      Descends links score low (count + 1) current (trail :: trails) final

variable {layers : Nat → VectorId → List VectorId} {low count : Nat}

theorem Descends.unique {current first second : VectorId} {trails others : List (List VectorId)}
    (path : Descends layers score low count current trails first)
    (other : Descends layers score low count current others second) :
    trails = others ∧ first = second := by
  induction path generalizing others with
  | done => cases other; exact ⟨rfl, rfl⟩
  | layer walk _ ih =>
      cases other with
      | layer again rest =>
          obtain ⟨rfl, rfl⟩ := walk.unique again
          obtain ⟨same, sameEnd⟩ := ih rest
          exact ⟨congrArg _ same, sameEnd⟩

theorem Descends.final_best {current final : VectorId} {trails : List (List VectorId)}
    (path : Descends layers score low count current trails final) :
    (final = current ∨ Beats score final current) ∧
      (0 < count → ∀ link ∈ layers low final, ¬ Beats score link final) := by
  induction path with
  | done => exact ⟨Or.inl rfl, fun none => absurd none (Nat.lt_irrefl 0)⟩
  | @layer count current next final trail trails walk rest ih =>
      obtain ⟨place, none⟩ := walk.final_best
      obtain ⟨below, lowest⟩ := ih
      refine ⟨?_, fun _ => ?_⟩
      · rcases below with rfl | beyond
        · exact place
        · rcases place with rfl | ahead
          · exact Or.inr beyond
          · exact Or.inr (beyond.trans ahead)
      · cases rest with
        | done => exact none
        | layer _ _ => exact lowest (Nat.succ_pos _)

theorem exists_descends {nodes : Finset VectorId}
    (all : ∀ id, (score id).isSome = true → id ∈ nodes)
    (layers : Nat → VectorId → List VectorId) (low count : Nat) :
    ∀ current, ∃ trails,
      Descends layers score low count current trails
        (descend layers score nodes.card low count current) := by
  induction count with
  | zero => intro current; exact ⟨[], Descends.done⟩
  | succ count ih =>
      intro current
      obtain ⟨trail, next, walk, short⟩ := exists_walk all (layers (low + count)) current
      obtain ⟨trails, path⟩ := ih next
      refine ⟨trail :: trails, Descends.layer walk ?_⟩
      rw [descend, walkFrom_eq_of_walk walk (by omega)]
      exact path

end Descent

open Descent

/-- A descent in any graph, with any query and from any node, ends: every move on a layer leads to
a better neighbour, so no walk visits a node twice. It ends just where walks without a limit end, at
a node that has no better neighbour on the lowest layer and whose score is no lower than that of the
start, if the latter is defined. -/
theorem GraphIndex.descend_ends (index : GraphIndex) (query : Embedding) (start : VectorId)
    (low extra : Nat) :
    let links := index.links.linksAt
    let score := index.store.score query
    let final := descend links score index.store.size low (extra + 1) start
    (∃ trails, Descends links score low (extra + 1) start trails final) ∧
    (∀ trails last, Descends links score low (extra + 1) start trails last → last = final) ∧
    (∀ layer current next, next? (links layer) score current = some next →
      next ∈ links layer current ∧ Beats score next current) ∧
    (∀ layer first trail last, Walk (links layer) score first trail last →
      trail.Nodup ∧ trail.length ≤ max index.store.size 1) ∧
    (∀ link ∈ links low final, ¬ Beats score link final) ∧
    ∀ value, score start = some value → ∃ last, score final = some last ∧
      (value.isNaN = false → value ≤ last) := by
  intro links score final
  have all (id : VectorId) (scored : (score id).isSome = true) : id ∈ index.store.ids.toFinset := by
    rw [Store.isSome_score] at scored
    exact List.mem_toFinset.mpr ((Store.mem_ids _ _).mpr scored)
  have card : index.store.ids.toFinset.card = index.store.size := by
    rw [List.toFinset_card_of_nodup index.store.nodup_ids, Store.length_ids]
  obtain ⟨trails, path⟩ := exists_descends all links low (extra + 1) start
  rw [card] at path
  obtain ⟨place, lowest⟩ := path.final_best
  refine ⟨⟨trails, path⟩, fun others last other => (other.unique path).2,
    fun layer current next => beats_of_next?, fun layer first trail last walk => ?_,
    lowest (Nat.succ_pos extra), fun value scored => ?_⟩
  · exact ⟨walk.nodup, card ▸ walk.length_le all⟩
  · rcases place with same | ⟨last, again, lastScored, startScored, above⟩
    · refine ⟨value, ?_, fun defined => (Score.le_iff defined defined).mpr (le_refl _)⟩
      rw [show final = start from same]
      exact scored
    · obtain rfl : value = again := Option.some.inj (scored.symm.trans startScored)
      exact ⟨last, lastScored, fun _ => above.le_score⟩

theorem GraphIndex.descend_ends_three :
    let index := run (fun draw => draw % 2) 1 .dotProduct {} [(1, #[1]), (2, #[5]), (3, #[3])]
    let links := index.links.linksAt
    let score := index.store.score #[1]
    let final := descend links score index.store.size 0 2 1
    next? (links 0) score 1 = some 2 ∧ 2 ∈ links 0 1 ∧ Beats score 2 1 ∧
    final = 2 ∧ 3 ∈ links 0 final ∧ ¬ Beats score 3 final ∧
    score 1 = some 1 ∧ (1 : Float32).isNaN = false ∧
    ∃ last, score final = some last ∧ 1 ≤ last := by
  intro index links score final
  obtain ⟨_, _, moves, _, lowest, kept⟩ := descend_ends index #[1] 1 0 1
  have moved : next? (links 0) score 1 = some 2 := by decide +kernel
  have linked : 3 ∈ links 0 final := by decide +kernel
  have scored : score 1 = some 1 := by decide +kernel
  have defined : (1 : Float32).isNaN = false := by decide +kernel
  obtain ⟨member, ahead⟩ := moves 0 1 2 moved
  obtain ⟨last, lastScored, higher⟩ := kept 1 scored
  exact ⟨moved, member, ahead, by decide +kernel, linked, lowest 3 linked, scored, defined, last,
    lastScored, higher defined⟩

end VectorSearch
