import VectorSearch.Proofs.Exact
import VectorSearch.Proofs.Graph.BackLinks
import VectorSearch.Proofs.Graph.Steps
/-!
Pruning. Whenever a node has too many links it keeps the nearest ones, in the middle of the
insertions of others. At every moment it has the nearest of all nodes to which it was ever offered
a link: to prune again and again loses nothing that pruning once at the end would keep.
-/

namespace VectorSearch

open LinkStep

namespace GraphIndex

/-! The links that are kept. -/

section Kept

variable {store other : Store} {capacity : Nat} {id newcomer : VectorId} {links : LinkSet}

theorem nearestLinks_of_few [Host] (ascending : links.Pairwise (· < ·))
    (stored : ∀ link ∈ links, store.contains link = true) (few : links.length ≤ capacity) :
    nearestLinks store capacity id links = links := by
  cases found : store.get? id with
  | none => simp only [nearestLinks, found]
  | some row =>
      have ids := store.map_id_hitsOf row links stored
      have few : (Hit.sort (store.hitsOf row links)).length ≤ capacity := by
        rwa [(Hit.sort_perm _).length_eq, ← List.length_map (·.id), ids]
      have perm := (Hit.sort_perm (store.hitsOf row links)).map (·.id)
      refine LinkSet.eq_of_mem_iff (ascending_nearestLinks store capacity id ascending) ascending
        fun link => ?_
      rw [mem_nearestLinks found, Hit.rank, List.take_of_length_le few, ← List.mem_map,
        perm.mem_iff, ids]

theorem linksWith_eq [Host] (ascending : links.Pairwise (· < ·))
    (stored : ∀ link ∈ links, store.contains link = true)
    (newcomerStored : store.contains newcomer = true) :
    linksWith store capacity newcomer id links =
      nearestLinks store capacity id (LinkSet.insert newcomer links) := by
  unfold linksWith
  dsimp only
  split
  · rfl
  · rename_i few
    refine (nearestLinks_of_few (LinkSet.ascending_insert newcomer ascending) ?_
      (Nat.le_of_not_lt few)).symm
    intro link member
    rcases (LinkSet.mem_insert newcomer link links).mp member with rfl | old
    · exact newcomerStored
    · exact stored link old

theorem nearestLinks_insert_nearestLinks [Host] {row : Embedding} (found : store.get? id = some row)
    (comparable : store.Comparable id (newcomer :: links)) (ascending : links.Pairwise (· < ·)) :
    nearestLinks store capacity id
        (LinkSet.insert newcomer (nearestLinks store capacity id links)) =
      nearestLinks store capacity id (LinkSet.insert newcomer links) := by
  have keptAscending := ascending_nearestLinks store capacity id ascending
  have isBest {some : LinkSet} (someAscending : some.Pairwise (· < ·))
      (inside : some ⊆ newcomer :: links) :=
    Store.isBest_rank_hitsOf_of_defined
      (fun other member score => (comparable.subset inside) row other score found member)
      (someAscending.imp Nat.ne_of_lt) capacity
  have best := isBest ascending fun link old => List.mem_cons_of_mem newcomer old
  have next := isBest (LinkSet.ascending_insert newcomer keptAscending) fun link member =>
    List.mem_cons.mpr (((LinkSet.mem_insert newcomer link _).mp member).imp_right
      mem_of_mem_nearestLinks)
  have all := isBest (LinkSet.ascending_insert newcomer ascending) fun link member =>
    List.mem_cons.mpr ((LinkSet.mem_insert newcomer link links).mp member)
  have extended := best.extend (fun hit => hit.id = newcomer ∧ store.Scored row hit)
    (next.congr fun hit => by
      rw [LinkSet.mem_insert, mem_nearestLinks found]
      constructor
      · rintro (kept | ⟨same, scored⟩)
        · exact ⟨.inr ⟨hit, kept, rfl⟩, (best.sound hit kept).2⟩
        · exact ⟨.inl same, scored⟩
      · rintro ⟨same | ⟨⟨_, score⟩, kept, rfl⟩, scored⟩
        · exact .inr ⟨same, scored⟩
        · obtain rfl : hit.score = score :=
            Option.some.inj (scored.symm.trans (best.sound _ kept).2)
          exact .inl kept)
  have same := (extended.congr fun hit => by
    rw [LinkSet.mem_insert, or_comm, or_and_right]).eq
      (fun hit ⟨member, scored⟩ => comparable row hit.id hit.score found
        (List.mem_cons.mpr ((LinkSet.mem_insert newcomer hit.id links).mp member)) scored) all
  rw [nearestLinks, found]
  dsimp only
  rw [same, nearestLinks, found]

theorem nearestLinks_congr [Host] (own : store.get? id = other.get? id)
    (others : ∀ link ∈ links, store.get? link = other.get? link)
    (metric : store.metric = other.metric) (capacity : Nat) :
    nearestLinks store capacity id links = nearestLinks other capacity id links := by
  have hits (row : Embedding) : store.hitsOf row links = other.hitsOf row links :=
    List.filterMap_congr fun link member => by
      rw [Store.score, Store.score, others link member, metric]
  rw [nearestLinks, nearestLinks, own]
  simp only [hits]

end Kept

end GraphIndex

/-! One step. -/

namespace LinkStep

def OffersDefined (store : Store) (log : List LinkStep) : Prop :=
  ∀ layer id, store.Comparable id (offered layer id log)

theorem OffersDefined.subset {store : Store} {log more : List LinkStep}
    (defined : OffersDefined store more) (inside : log ⊆ more) : OffersDefined store log :=
  fun layer id => (defined layer id).subset (offered_subset inside layer id)

/-- A step that can be taken: a new node has no links yet and selects no more than it has room for,
and links are offered to nodes of their layer. -/
def Fits (store : Store) (settings : GraphSettings) (table : LinkTable) (log : List LinkStep) :
    LinkStep → Prop
  | addNode id _ => table.height id = 0
  | select id layer chosen => layer < table.height id ∧ offered layer id log = [] ∧
    chosen.length ≤ settings.capacity layer ∧ ∀ link ∈ chosen, store.contains link = true
  | linkBack newcomer layer id => layer < table.height id ∧ store.contains newcomer = true

end LinkStep

namespace GraphIndex

/-- Every node has the nearest of all nodes to which it was offered links. -/
structure Pruned [Host] (store : Store) (settings : GraphSettings) (table : LinkTable)
    (log : List LinkStep) : Prop where
  stored : ∀ layer id, ∀ link ∈ offered layer id log, store.contains link = true
  tall : ∀ layer id, offered layer id log ≠ [] → layer < table.height id
  kept : ∀ layer id, store.contains id = true → table.linksAt layer id =
    nearestLinks store (settings.capacity layer) id (LinkSet.insertAll (offered layer id log) [])

variable {store : Store} {settings : GraphSettings} {table : LinkTable} {log : List LinkStep}

theorem Pruned.unasked [Host] (pruned : Pruned store settings table log) {layer : Nat}
    {id : VectorId} (low : table.height id ≤ layer) : offered layer id log = [] := by
  by_contra asked
  have tall := pruned.tall layer id asked
  omega

theorem Pruned.addNode [Host] (pruned : Pruned store settings table log) {id : VectorId}
    (fresh : table.height id = 0) (level : Nat) :
    Pruned store settings (table.addNode id level) (log ++ [.addNode id level]) := by
  have unasked (layer : Nat) : offered layer id log = [] :=
    pruned.unasked (fresh.trans_le (Nat.zero_le layer))
  have same (layer : Nat) (node : VectorId) :
      offered layer node (log ++ [.addNode id level]) = offered layer node log := by
    simp [offers]
  refine ⟨fun layer node => ?_, fun layer node asked => ?_, fun layer node nodeStored => ?_⟩
  · rw [same]
    exact pruned.stored layer node
  · rw [same] at asked
    rw [LinkTable.height_addNode, if_neg]
    · exact pruned.tall layer node asked
    · rintro rfl
      exact asked (unasked layer)
  · rw [same, LinkTable.linksAt_addNode]
    split
    · rename_i own
      rw [← own, unasked]
      exact (nearestLinks_of_few List.Pairwise.nil (List.forall_mem_nil _) (Nat.zero_le _)).symm
    · exact pruned.kept layer node nodeStored

theorem Pruned.modifyLinks [Host] (pruned : Pruned store settings table log) {step : LinkStep}
    {id : VectorId} {layer : Nat} {made : List VectorId} {change : LinkSet → LinkSet}
    (inside : layer < table.height id)
    (offer : ∀ place node, step.offers place node = if id = node ∧ layer = place then made else [])
    (madeStored : ∀ link ∈ made, store.contains link = true)
    (keeps : store.contains id = true → change (table.linksAt layer id) =
      nearestLinks store (settings.capacity layer) id
        (LinkSet.insertAll (offered layer id log ++ made) [])) :
    Pruned store settings (table.modifyLinks layer id change) (log ++ [step]) := by
  have all (place : Nat) (node : VectorId) : offered place node (log ++ [step]) =
      offered place node log ++ if id = node ∧ layer = place then made else [] := by
    simp [offer]
  refine ⟨fun place node link member => ?_, fun place node asked => ?_,
    fun place node nodeStored => ?_⟩
  · rw [all, List.mem_append] at member
    rcases member with old | new
    · exact pruned.stored place node link old
    · split at new
      · exact madeStored link new
      · exact absurd new List.not_mem_nil
  · rw [LinkTable.height_modifyLinks]
    by_cases here : id = node ∧ layer = place
    · obtain ⟨rfl, rfl⟩ := here
      exact inside
    · rw [all, if_neg here, List.append_nil] at asked
      exact pruned.tall place node asked
  · rw [all, LinkTable.linksAt_modifyLinks _ _ _ _ inside]
    by_cases here : id = node ∧ layer = place
    · rw [if_pos here, if_pos here]
      obtain ⟨rfl, rfl⟩ := here
      exact keeps nodeStored
    · rw [if_neg here, if_neg here, List.append_nil]
      exact pruned.kept place node nodeStored

theorem Pruned.step [Host] (pruned : Pruned store settings table log) {step : LinkStep}
    (fits : step.Fits store settings table log)
    (defined : OffersDefined store (log ++ [step])) :
    Pruned store settings (step.apply store settings table) (log ++ [step]) := by
  have ascending (offers : List VectorId) := LinkSet.ascending_insertAll offers [] List.Pairwise.nil
  have among (offers : List VectorId) (link : VectorId) :
      link ∈ LinkSet.insertAll offers [] ↔ link ∈ offers := by
    simp [LinkSet.mem_insertAll]
  cases step with
  | addNode id level => exact pruned.addNode fits level
  | select id layer chosen =>
      obtain ⟨inside, unasked, few, chosenStored⟩ := fits
      refine pruned.modifyLinks inside (fun _ _ => rfl) chosenStored fun idStored => ?_
      have length := LinkSet.length_insertAll_le chosen []
      have silent : table.linksAt layer id = [] := by
        rw [pruned.kept layer id idStored, unasked]
        exact nearestLinks_of_few List.Pairwise.nil (List.forall_mem_nil _) (Nat.zero_le _)
      rw [silent, unasked, List.nil_append]
      refine (nearestLinks_of_few (ascending chosen) (fun link member => ?_) ?_).symm
      · exact chosenStored link ((among chosen link).mp member)
      · rw [List.length_nil] at length
        omega
  | linkBack newcomer layer id =>
      obtain ⟨inside, newcomerStored⟩ := fits
      refine pruned.modifyLinks inside (fun _ _ => rfl) (by simpa using newcomerStored)
        fun idStored => ?_
      rw [← Store.isSome_get?] at idStored
      obtain ⟨row, found⟩ := Option.isSome_iff_exists.mp idStored
      rw [Store.isSome_get?] at idStored
      have comparable : store.Comparable id
          (newcomer :: LinkSet.insertAll (offered layer id log) []) :=
        (defined layer id).subset fun link => by simp [offers, LinkSet.mem_insertAll, or_comm]
      have earlier := pruned.kept layer id idStored
      have earlierStored (link : VectorId) (member : link ∈ table.linksAt layer id) :
          store.contains link = true := by
        rw [earlier] at member
        exact pruned.stored layer id link ((among _ link).mp (mem_of_mem_nearestLinks member))
      rw [linksWith_eq (earlier ▸ ascending_nearestLinks _ _ _ (ascending _)) earlierStored
        newcomerStored, earlier, nearestLinks_insert_nearestLinks found comparable (ascending _),
        LinkSet.insertAll_concat]

/-! Many steps. -/

inductive Orderly [Host] (store : Store) (settings : GraphSettings) :
    LinkTable → List LinkStep → List LinkStep → Prop
  | nil (table : LinkTable) (log : List LinkStep) : Orderly store settings table log []
  | cons {table : LinkTable} {log : List LinkStep} {step : LinkStep} {rest : List LinkStep}
    (fits : step.Fits store settings table log)
    (behind : Orderly store settings (step.apply store settings table) (log ++ [step]) rest) :
    Orderly store settings table log (step :: rest)

theorem Orderly.append [Host] {steps more : List LinkStep}
    (orderly : Orderly store settings table log steps)
    (behind : Orderly store settings (steps.foldl (LinkStep.apply store settings) table)
      (log ++ steps) more) : Orderly store settings table log (steps ++ more) := by
  induction orderly with
  | nil table log => simpa using behind
  | cons fits rest ih => exact .cons fits (ih (by simpa using behind))

theorem Pruned.steps [Host] (pruned : Pruned store settings table log) {steps taken : List LinkStep}
    (orderly : Orderly store settings table log steps) (earlier : taken <+: steps)
    (defined : OffersDefined store (log ++ taken)) :
    Pruned store settings (taken.foldl (LinkStep.apply store settings) table) (log ++ taken) := by
  induction orderly generalizing taken with
  | nil table log =>
      obtain rfl := List.prefix_nil.mp earlier
      simpa using pruned
  | cons fits rest ih =>
      rcases List.prefix_cons_iff.mp earlier with rfl | ⟨more, rfl, shorter⟩
      · simpa using pruned
      · have now := pruned.step fits (defined.subset (by simp))
        simpa using ih now shorter (by simpa using defined)

/-! One insertion. -/

variable {index : GraphIndex} {id : VectorId} {layer : Nat} {start : VectorId}

theorem orderly_linkBacks [Host] (stored : store.contains id = true) {chosen : List VectorId}
    (tall : ∀ node ∈ chosen, layer < table.height node) :
    Orderly store settings table log (chosen.map (.linkBack id layer)) := by
  induction chosen generalizing table log with
  | nil => exact .nil table log
  | cons first rest ih =>
      refine .cons ⟨tall first (by simp), stored⟩ (ih fun node member => ?_)
      exact (LinkTable.height_modifyLinks ..).symm ▸ tall node (by simp [member])

theorem Unlinked.orderly_linkSteps [Host] (unlinked : index.Unlinked id layer table start)
    (unasked : offered layer id log = []) (row : Embedding) :
    Orderly index.store index.settings table log
      (linkSteps id layer (index.choose id (index.nearby row layer table start))) := by
  have others (node : VectorId)
      (chosen : node ∈ index.choose id (index.nearby row layer table start)) :
      node ≠ id ∧ layer < table.height node := unlinked.of_mem_choose chosen
  refine .cons ⟨unlinked.tall, unasked, ?_, fun node chosen => ?_⟩ (orderly_linkBacks ?_ ?_)
  · exact (length_choose_le ..).trans (maxLinks_le_capacity ..)
  · exact unlinked.stored node (Nat.zero_lt_of_lt (others node chosen).2)
  · exact unlinked.stored id (Nat.zero_lt_of_lt unlinked.tall)
  · intro node chosen
    exact (LinkTable.height_modifyLinks ..).symm ▸ (others node chosen).2

theorem offered_linkSteps {place : Nat} (elsewhere : layer ≠ place) (id node : VectorId)
    (chosen : List VectorId) : offered place node (linkSteps id layer chosen) = [] := by
  simp [offered, linkSteps, offers, elsewhere]

theorem Unlinked.orderly_linkDownSteps [Host] (row : Embedding) (layer : Nat) :
    ∀ table start log, index.Unlinked id layer table start →
      (∀ lower ≤ layer, offered lower id log = []) →
      Orderly index.store index.settings table log
        (index.linkDownSteps id row layer (table, start)) := by
  induction layer with
  | zero =>
      intro table start log unlinked unasked
      exact unlinked.orderly_linkSteps (unasked 0 (Nat.le_refl 0)) row
  | succ layer ih =>
      intro table start log unlinked unasked
      refine (unlinked.orderly_linkSteps (unasked _ (Nat.le_refl _)) row).append ?_
      rw [foldl_linkSteps]
      refine ih _ _ _ (unlinked.linkLayer row).1 fun lower bound => ?_
      rw [offered_append, unasked lower (Nat.le_succ_of_le bound),
        offered_linkSteps (Nat.ne_of_gt (Nat.lt_succ_of_le bound)), List.append_nil]

theorem Rooted.orderly_attachSteps [Host] (rooted : index.Rooted)
    (fresh : index.links.contains id = false)
    (stored : ∀ node, node = id ∨ index.links.contains node = true →
      index.store.contains node = true)
    (unasked : ∀ layer, offered layer id log = []) (row : Embedding) (level : Nat) :
    Orderly index.store index.settings index.links log (index.attachSteps id row level) := by
  refine .cons (LinkTable.height_eq_zero fresh) ?_
  cases place : index.entry with
  | none => exact .nil _ _
  | some entry =>
      refine Unlinked.orderly_linkDownSteps row _ _ _ _
        (rooted.unlinked fresh place stored row level) fun lower _ => ?_
      rw [offered_append, unasked]
      rfl

theorem Pruned.put [Host] (pruned : Pruned store settings table log) (packed : store.Packed)
    {row : Embedding} (fits : row.size = store.dimension) (fresh : store.contains id = false)
    (low : table.height id = 0) : Pruned (store.put id row) settings table log := by
  have same {other : VectorId} (old : store.contains other = true) :=
    (packed.get?_put_of_new fits fresh old).symm
  refine ⟨fun layer node link member => ?_, pruned.tall, fun layer node nodeStored => ?_⟩
  · exact (store.contains_put id row link).mpr (.inr (pruned.stored layer node link member))
  · rcases (store.contains_put id row node).mp nodeStored with rfl | old
    · rw [pruned.unasked (low.trans_le (Nat.zero_le layer)),
        LinkTable.linksAt_of_height_le (low.trans_le (Nat.zero_le layer))]
      exact (nearestLinks_of_few List.Pairwise.nil (List.forall_mem_nil _) (Nat.zero_le _)).symm
    · rw [pruned.kept layer node old]
      refine nearestLinks_congr (same old) (fun link member => same ?_) (Store.metric_put ..).symm _
      exact pruned.stored layer node link (by simpa [LinkSet.mem_insertAll] using member)

theorem Pruned.insertSteps [Host] (pruned : Pruned index.store index.settings index.links log)
    (wellFormed : index.WellFormed) (packed : index.store.Packed) {row : Embedding}
    (fits : row.size = index.store.dimension) (fresh : index.store.contains id = false)
    (levelOf : Nat → Nat) {taken : List LinkStep}
    (earlier : taken <+: index.insertSteps levelOf id row)
    (defined : OffersDefined (index.store.put id row) (log ++ taken)) :
    Pruned (index.store.put id row) index.settings
      (taken.foldl (LinkStep.apply (index.store.put id row) index.settings) index.links)
      (log ++ taken) := by
  have absent : index.links.contains id = false := (wellFormed.nodes id).trans fresh
  have low := LinkTable.height_eq_zero absent
  obtain ⟨rooted, stored⟩ := wellFormed.awaiting id row
  rw [insertSteps_of_new levelOf fits fresh] at earlier
  exact (pruned.put packed fits fresh low).steps
    (rooted.orderly_attachSteps absent stored
      (fun layer => pruned.unasked (low.trans_le (Nat.zero_le layer))) row _) earlier defined

/-! Runs. -/

variable {levelOf : Nat → Nat} {dimension : Nat} {metric : Metric}
  {calls : List (VectorId × Embedding)} {next : VectorId × Embedding}

def EachOnce (dimension : Nat) (calls : List (VectorId × Embedding)) : Prop :=
  ((calls.filter fun call => call.2.size = dimension).map Prod.fst).Nodup

theorem packed_run [Host] (levelOf : Nat → Nat) (dimension : Nat) (metric : Metric)
    (settings : GraphSettings) (calls : List (VectorId × Embedding)) :
    (run levelOf dimension metric settings calls).store.Packed ∧
      (run levelOf dimension metric settings calls).store.dimension = dimension := by
  rw [store_run]
  exact ⟨(FlatIndex.get?_run dimension metric calls).1, FlatIndex.dimension_run ..⟩

theorem fresh_of_once [Host] (levelOf : Nat → Nat) (metric : Metric) (settings : GraphSettings)
    (once : EachOnce dimension (calls ++ [next]))
    (fits : next.2.size = dimension) :
    (run levelOf dimension metric settings calls).store.contains next.1 = false := by
  have others : calls.filter (fun call => call.1 = next.1 ∧ call.2.size = dimension) = [] := by
    refine List.filter_eq_nil_iff.mpr fun call member taken => ?_
    obtain ⟨same, callFits⟩ := of_decide_eq_true taken
    rw [EachOnce, List.filter_append, List.map_append, List.nodup_append] at once
    exact once.2.2 call.1 (List.mem_map_of_mem (by simp [member, callFits])) next.1
      (by simp [fits]) same
  rw [← Store.isSome_get?, store_run, (FlatIndex.get?_run dimension metric calls).2.2,
    FlatIndex.latest, others]
  rfl

theorem offersDefined_of_put (packed : store.Packed) {row : Embedding}
    (fits : row.size = store.dimension) (fresh : store.contains id = false)
    (defined : OffersDefined (store.put id row) log) : OffersDefined store log := by
  intro layer viewer seen other score found member scored
  have viewerStored : store.contains viewer = true := by
    rw [← Store.isSome_get?, found]
    rfl
  have otherStored : store.contains other = true := by
    rw [← Store.isSome_score store seen, scored]
    rfl
  refine defined layer viewer seen other score ?_ member ?_
  · rw [packed.get?_put_of_new fits fresh viewerStored, found]
  · rwa [Store.score, packed.get?_put_of_new fits fresh otherStored, Store.metric_put]

theorem run_next [Host] (levelOf : Nat → Nat) (metric : Metric) (settings : GraphSettings)
    (once : EachOnce dimension (calls ++ [next])) :
    let before := run levelOf dimension metric settings calls
    let after := run levelOf dimension metric settings (calls ++ [next])
    (next.2.size = before.store.dimension ∧ before.store.contains next.1 = false ∧
      after.store = before.store.put next.1 next.2 ∧
      (before.insertSteps levelOf next.1 next.2).foldl
        (LinkStep.apply after.store before.settings) before.links = after.links) ∨
    after = before ∧ before.insertSteps levelOf next.1 next.2 = [] := by
  intro before after
  have sameDimension : before.store.dimension = dimension := (packed_run ..).2
  have called : after = settle before (before.insertWith levelOf next.1 next.2) :=
    run_concat levelOf dimension metric settings calls next
  by_cases fits : next.2.size = before.store.dimension
  · have fresh : before.store.contains next.1 = false :=
      fresh_of_once levelOf metric settings once (fits.trans sameDimension)
    rw [insertWith_of_new levelOf fits fresh] at called
    have store : after.store = before.store.put next.1 next.2 := by
      rw [called]
      exact (store_attach _ _ _ _).1
    refine .inl ⟨fits, fresh, store, ?_⟩
    rw [store, insertSteps_of_new levelOf fits fresh, called]
    exact foldl_attachSteps (before.awaiting next.1 next.2) next.1 next.2 _
  · rw [insertWith_of_unfit levelOf fits] at called
    exact .inr ⟨called, insertSteps_of_unfit levelOf fits next.1⟩

theorem Pruned.moments [Host] {settings : GraphSettings}
    (pruned : Pruned (run levelOf dimension metric settings calls).store settings
      (run levelOf dimension metric settings calls).links
      (runSteps levelOf dimension metric settings calls))
    (once : EachOnce dimension (calls ++ [next]))
    (defined : OffersDefined (run levelOf dimension metric settings (calls ++ [next])).store
      (runSteps levelOf dimension metric settings (calls ++ [next]))) :
    let before := run levelOf dimension metric settings calls
    let after := run levelOf dimension metric settings (calls ++ [next])
    let steps := before.insertSteps levelOf next.1 next.2
    steps.foldl (LinkStep.apply after.store settings) before.links = after.links ∧
    ∀ taken, taken <+: steps → Pruned after.store settings
      (taken.foldl (LinkStep.apply after.store settings) before.links)
      (runSteps levelOf dimension metric settings calls ++ taken) := by
  intro before after steps
  obtain ⟨wellFormed, same⟩ := run_wellFormed levelOf dimension metric settings calls
  have own : before.settings = settings := same
  rcases run_next levelOf metric settings once with
    ⟨fits, fresh, store, links⟩ | ⟨unchanged, none⟩
  · have stored : after.store = before.store.put next.1 next.2 := store
    have earlier : Pruned before.store before.settings before.links
        (runSteps levelOf dimension metric settings calls) := by
      rw [own]
      exact pruned
    have moments (taken : List LinkStep) (shorter : taken <+: steps) :=
      earlier.insertSteps wellFormed (packed_run ..).1 fits fresh levelOf shorter <| by
        rw [runSteps_concat] at defined
        exact store ▸ defined.subset ((List.prefix_append_right_inj _).mpr shorter).subset
    rw [own] at links moments
    rw [stored]
    exact ⟨stored ▸ links, moments⟩
  · have same : after = before := unchanged
    rw [show steps = [] from none, same]
    refine ⟨rfl, fun taken shorter => ?_⟩
    obtain rfl := List.prefix_nil.mp shorter
    rwa [List.append_nil]

theorem earlier_of_concat [Host] {settings : GraphSettings}
    (once : EachOnce dimension (calls ++ [next]))
    (defined : OffersDefined (run levelOf dimension metric settings (calls ++ [next])).store
      (runSteps levelOf dimension metric settings (calls ++ [next]))) :
    EachOnce dimension calls ∧ OffersDefined (run levelOf dimension metric settings calls).store
      (runSteps levelOf dimension metric settings calls) := by
  constructor
  · rw [EachOnce, List.filter_append, List.map_append] at once
    exact (List.nodup_append.mp once).1
  · rw [runSteps_concat] at defined
    have before := defined.subset (List.subset_append_left _ _)
    rcases run_next levelOf metric settings once with ⟨fits, fresh, store, _⟩ | ⟨same, _⟩
    · rw [store] at before
      exact offersDefined_of_put (packed_run ..).1 fits fresh before
    · rwa [same] at before

theorem run_pruned [Host] (levelOf : Nat → Nat) (dimension : Nat) (metric : Metric)
    (settings : GraphSettings) (calls : List (VectorId × Embedding))
    (once : EachOnce dimension calls)
    (defined : OffersDefined (run levelOf dimension metric settings calls).store
      (runSteps levelOf dimension metric settings calls)) :
    Pruned (run levelOf dimension metric settings calls).store settings
      (run levelOf dimension metric settings calls).links
      (runSteps levelOf dimension metric settings calls) := by
  induction calls using List.reverseRecOn with
  | nil =>
      refine ⟨fun _ _ => nofun, fun _ _ asked => absurd rfl asked, fun layer id stored => ?_⟩
      exact absurd stored (by simp [run, runCalls, empty, Store.empty, Store.contains])
  | append_singleton calls next ih =>
      obtain ⟨apart, before⟩ := earlier_of_concat once defined
      obtain ⟨links, moments⟩ := (ih apart before).moments once defined
      have last := moments _ List.prefix_rfl
      rwa [links, ← runSteps_concat] at last

/-- At every moment of a run in which no vector comes twice and no score is undefined, whatever
levels are drawn: the links of a node on a layer are the best ones of all that were ever offered to
it there, as many as it may have, by descending similarity to the node and ascending identifier.
Offered to it were the nodes that it selected itself, and those that selected it. So it has the
links that are left when all that were offered are pruned once. -/
theorem links_pruned_once [Host] (levelOf : Nat → Nat) (dimension : Nat) (metric : Metric)
    (settings : GraphSettings) (calls : List (VectorId × Embedding)) (next : VectorId × Embedding)
    (once : EachOnce dimension (calls ++ [next]))
    (defined : OffersDefined (run levelOf dimension metric settings (calls ++ [next])).store
      (runSteps levelOf dimension metric settings (calls ++ [next]))) :
    let before := run levelOf dimension metric settings calls
    let after := run levelOf dimension metric settings (calls ++ [next])
    let steps := before.insertSteps levelOf next.1 next.2
    let tableAfter (taken : List LinkStep) :=
      taken.foldl (LinkStep.apply after.store settings) before.links
    let log := runSteps levelOf dimension metric settings calls
    tableAfter steps = after.links ∧
    (∀ layer id link, link ∈ offered layer id (log ++ steps) ↔
      ∃ chosen, .select id layer chosen ∈ log ++ steps ∧ link ∈ chosen ∨
        .select link layer chosen ∈ log ++ steps ∧ id ∈ chosen) ∧
    ∀ taken, taken <+: steps → ∀ layer id row, after.store.get? id = some row →
      let offers := offered layer id (log ++ taken)
      let capacity := if layer = 0 then 2 * settings.maxLinks else settings.maxLinks
      let links := (tableAfter taken).linksAt layer id
      links.Pairwise (· < ·) ∧
      (∃ best, Hit.IsBest (fun hit => hit.id ∈ offers ∧ after.store.Scored row hit) capacity best ∧
        ∀ link, link ∈ links ↔ link ∈ best.map (·.id)) ∧
      links = nearestLinks after.store capacity id (LinkSet.insertAll offers []) := by
  intro before after steps tableAfter log
  obtain ⟨apart, earlier⟩ := earlier_of_concat once defined
  obtain ⟨links, moments⟩ :=
    (run_pruned levelOf dimension metric settings calls apart earlier).moments once defined
  refine ⟨links, fun layer id link => ?_, fun taken shorter layer id row found => ?_⟩
  · rw [← runSteps_concat]
    exact mem_offered (answered_runSteps levelOf dimension metric settings _) layer id link
  · intro offers capacity links
    have ascending := LinkSet.ascending_insertAll offers [] List.Pairwise.nil
    have room : settings.capacity layer = capacity := by
      simp only [GraphSettings.capacity, capacity, Nat.mul_comm]
    have stored : after.store.contains id = true := by
      rw [← Store.isSome_get?, found]
      rfl
    have kept : links = nearestLinks after.store capacity id (LinkSet.insertAll offers []) := by
      rw [← room]
      exact (moments taken shorter).kept layer id stored
    have comparable : after.store.Comparable id (LinkSet.insertAll offers []) := by
      rw [runSteps_concat] at defined
      have sofar := defined.subset ((List.prefix_append_right_inj log).mpr shorter).subset
      exact (sofar layer id).subset fun link => by simp [LinkSet.mem_insertAll, offers, log]
    have best := Store.isBest_rank_hitsOf_of_defined
      (fun other member score => comparable row other score found member)
      (ascending.imp Nat.ne_of_lt) capacity
    refine ⟨kept ▸ ascending_nearestLinks _ _ _ ascending,
      ⟨_, best.congr fun hit => ?_, fun link => ?_⟩, kept⟩
    · refine and_congr_left fun _ => ?_
      simp [LinkSet.mem_insertAll]
    · rw [kept, mem_nearestLinks found, List.mem_map]

theorem links_pruned_once_fifth :
    let levelOf (draw : Nat) := draw % 2
    let settings : GraphSettings := { maxLinks := 1 }
    let calls : List (VectorId × Embedding) := [(1, #[2]), (7, #[1]), (4, #[3]), (5, #[4])]
    let next : VectorId × Embedding := (6, #[5])
    let before := run levelOf 1 .dotProduct settings calls
    let after := run levelOf 1 .dotProduct settings (calls ++ [next])
    let taken := (before.insertSteps levelOf 6 #[5]).take 3
    EachOnce 1 (calls ++ [next]) ∧
    OffersDefined after.store (runSteps levelOf 1 .dotProduct settings (calls ++ [next])) ∧
    taken <+: before.insertSteps levelOf 6 #[5] ∧ after.store.get? 4 = some #[3] ∧
    offered 1 4 (runSteps levelOf 1 .dotProduct settings calls ++ taken) = [1, 6] ∧
    (taken.foldl (LinkStep.apply after.store settings) before.links).linksAt 1 4 =
      nearestLinks after.store 1 4 [1, 6] ∧
    nearestLinks after.store 1 4 [1, 6] = [6] := by
  intro levelOf settings calls next before after taken
  have once : EachOnce 1 (calls ++ [next]) := by
    unfold EachOnce
    decide +kernel
  have defined : OffersDefined after.store
      (runSteps levelOf 1 .dotProduct settings (calls ++ [next])) :=
    fun _ viewer => Store.comparable_of_all (by decide +kernel) viewer _
  have shorter : taken <+: before.insertSteps levelOf 6 #[5] := List.take_prefix 3 _
  have found : after.store.get? 4 = some #[3] := by decide +kernel
  have offers : offered 1 4 (runSteps levelOf 1 .dotProduct settings calls ++ taken) = [1, 6] := by
    decide +kernel
  obtain ⟨_, _, moments⟩ := links_pruned_once levelOf 1 .dotProduct settings calls next
    once defined
  have kept := (moments taken shorter 1 4 #[3] found).2.2
  rw [offers] at kept
  exact ⟨once, defined, shorter, found, offers, kept, by decide +kernel⟩

end GraphIndex

end VectorSearch
