import VectorSearch.Plan.Planner
import VectorSearch.Proofs.Migration.Reason
import VectorSearch.Proofs.Migration.Tally
import VectorSearch.Proofs.Text.Truncate
/-!
Messages. Explanations of plans and messages of failed migrations are cut from longer texts: each is
the longest beginning of its text that fits into 255 bytes and ends between two characters.
-/

namespace VectorSearch

namespace Planner

def explain (planner : Planner) (count : Nat) (filter : Option Float) (plan : Plan) : String :=
  match plan.strategy with
  | .exactScan => exactText planner.settings planner.statistics
  | .oversampleFilter => oversampleText planner.settings plan.oversample count (filter.getD 0)
  | .indexSearch =>
    searchText planner.statistics plan.breadth plan.probes plan.expectedRecall filter.isSome

theorem explanation_plan [Host] (planner : Planner) (count : Nat) (filter : Option Float) :
    (planner.plan count filter).explanation =
      Text.boundedMessage (planner.explain count filter (planner.plan count filter)) := by
  unfold plan planFor
  split
  · rfl
  · cases filter with
    | none => rfl
    | some share =>
        dsimp only
        split <;> rfl

end Planner

namespace Text

theorem isCut_boundedMessage (text : String) : IsCut text 255 (boundedMessage text) :=
  isCut_truncate text messageLimit

/-- A truncated text is the longest beginning that fits and ends between two characters, and the
search for its end in the bytes of the text does not fail. A text that fits is left as it is, any
other one loses at most three bytes of its allowance, and the smaller of two allowances decides. So
bounding a message twice is bounding it once, and every explanation of a plan and every message of
a migration is such a beginning of what there is to say. -/
theorem truncate_longest [Host] (text : String) (first second : Nat) :
    truncateBytes? text first = some (truncate text first) ∧
    IsCut text first (truncate text first) ∧
    (text.utf8ByteSize ≤ first → truncate text first = text) ∧
    (first < text.utf8ByteSize → first ≤ (truncate text first).utf8ByteSize + 3) ∧
    truncate (truncate text first) second = truncate text (min first second) ∧
    boundedMessage (boundedMessage text) = boundedMessage text ∧
    (∀ (planner : Planner) (count : Nat) (filter : Option Float),
      let plan := planner.plan count filter
      IsCut (planner.explain count filter plan) 255 plan.explanation) ∧
    ∀ (β : Type) (job : Job) (registry : Registry β) (startTime : Nat) (begun : Migration β),
      Migration.start job registry startTime = .ok begun → ∀ taken : List MigrationTurn,
        let info := (begun.turns taken).info
        (info.status ≠ .failed → info.message = "") ∧
        (info.status = .failed →
          begun.Told taken fun error => IsCut error.message 255 info.message) := by
  refine ⟨truncateBytes?_eq text first, isCut_truncate text first, truncate_of_fits,
    limit_le_truncate, truncate_truncate text first second, boundedMessage_boundedMessage text,
    fun planner count filter => ?_, fun β job registry startTime begun accepted taken => ⟨?_, ?_⟩⟩
  · intro plan
    rw [show plan.explanation = _ from planner.explanation_plan count filter]
    exact isCut_boundedMessage _
  · exact ((Migration.Consistent.start accepted).turns taken).1.sound.unexplained
  · intro failed
    obtain ⟨error, happened, message⟩ := (Migration.explained_turns accepted taken).shown failed
    refine ⟨error, happened, ?_⟩
    rw [show (begun.turns taken).info.message = _ from message]
    exact isCut_boundedMessage error.message

theorem truncate_longest_four :
    let text := "aé€😀"
    let job : Job := ⟨some #[0, 1, 2, 3], 4, 1, .flat, {}, 2⟩
    let registry := Registry.standard.register .flat ((Builder.standard .flat).refusing 3)
    let begun : Migration Index := ⟨job, registry, { total := 4 }, false, .waiting⟩
    let taken := List.replicate 12 (MigrationTurn.work 0)
    (text.utf8ByteSize ≤ 10 ∧ truncate text 10 = text) ∧
    (9 < text.utf8ByteSize ∧ 9 ≤ (truncate text 9).utf8ByteSize + 3 ∧
      truncateBytes? text 9 = some "aé€" ∧ truncate (truncate text 9) 5 = truncate text 5) ∧
    Migration.start job registry 0 = .ok begun ∧
    ((begun.turns []).info.status ≠ .failed ∧ (begun.turns []).info.message = "") ∧
    (begun.turns taken).info.status = .failed ∧
    begun.Told taken fun error => IsCut error.message 255 (begun.turns taken).info.message := by
  intro text job registry begun taken
  have short : text.utf8ByteSize ≤ 10 := by decide
  have long : 9 < text.utf8ByteSize := by decide
  have cut : truncate text 9 = "aé€" := by decide +kernel
  have accepted : Migration.start job registry 0 = .ok begun := rfl
  have failed : (begun.turns taken).info.status = .failed := by decide +kernel
  obtain ⟨_, _, whole, _⟩ := truncate_longest text 10 5
  obtain ⟨bytes, _, _, room, twice, _, _, messages⟩ := truncate_longest text 9 5
  exact ⟨⟨short, whole short⟩, ⟨long, room long, bytes.trans (congrArg some cut), twice⟩, accepted,
    ⟨nofun, (messages Index job registry 0 begun accepted []).1 nofun⟩, failed,
    (messages Index job registry 0 begun accepted taken).2 failed⟩

end Text

end VectorSearch
