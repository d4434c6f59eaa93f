import VectorSearch.Failure
/-!
Runs of calls. A run makes calls one after another; a refused call leaves the state as it was. An
invariant is carried through a run once and for all here, and so is a relation between two systems
that are called in the same way.
-/

namespace VectorSearch

variable {σ τ κ α β : Type}

/-! Outcomes. -/

theorem map_eq_ok {wrap : α → β} {outcome : Except Failure α} {result : β}
    (accepted : wrap <$> outcome = .ok result) :
    ∃ inner, outcome = .ok inner ∧ wrap inner = result := by
  cases outcome with
  | error failure => exact nomatch accepted
  | ok inner => exact ⟨inner, rfl, Except.ok.inj accepted⟩

theorem mapM_ok {ε : Type} {step : α → Except ε β} {value : α → β} {items : List α}
    (each : ∀ item ∈ items, step item = .ok (value item)) :
    items.mapM step = .ok (items.map value) := by
  induction items with
  | nil => rfl
  | cons first rest ih =>
      rw [List.mapM_cons, each first (by simp), ih fun item member => each item (by simp [member])]
      rfl

theorem foldlM_ok {ε : Type} {step : σ → α → Except ε σ} {next : σ → α → σ}
    (each : ∀ state item, step state item = .ok (next state item)) (items : List α) :
    ∀ start, items.foldlM step start = .ok (items.foldl next start) := by
  induction items with
  | nil => intro start; rfl
  | cons first rest ih =>
      intro start
      rw [List.foldlM_cons, each]
      exact ih _

/-! Runs. -/

/-- The state after a call: what the call gives, or the state before it where it is refused. -/
def settle (before : σ) (outcome : Except Failure σ) : σ :=
  match outcome with
  | .ok after => after
  | .error _ => before

def runCalls (call : σ → κ → Except Failure σ) (start : σ) (calls : List κ) : σ :=
  calls.foldl (fun state request => settle state (call state request)) start

theorem runCalls_induction (call : σ → κ → Except Failure σ) (invariant : σ → Prop)
    (kept : ∀ state request after, invariant state → call state request = .ok after →
      invariant after)
    (calls : List κ) : ∀ start, invariant start → invariant (runCalls call start calls) := by
  induction calls with
  | nil => intro start initial; exact initial
  | cons first rest ih =>
      intro start initial
      apply ih
      dsimp only
      cases outcome : call start first with
      | ok after => exact kept start first after initial outcome
      | error failure => exact initial

theorem runCalls_agree (call : σ → κ → Except Failure σ) (otherCall : τ → κ → Except Failure τ)
    (related : σ → τ → Prop)
    (step : ∀ state other request, related state other →
      related (settle state (call state request)) (settle other (otherCall other request)))
    (calls : List κ) : ∀ state other, related state other →
      related (runCalls call state calls) (runCalls otherCall other calls) := by
  induction calls with
  | nil => intro state other start; exact start
  | cons first rest ih => intro state other start; exact ih _ _ (step state other first start)

theorem runCalls_wrap {call : σ → κ → Except Failure σ} {outer : τ → κ → Except Failure τ}
    (wrap : σ → τ)
    (wrapped : ∀ state request, outer (wrap state) request = wrap <$> call state request)
    (start : σ) (calls : List κ) :
    runCalls outer (wrap start) calls = wrap (runCalls call start calls) := by
  refine runCalls_agree outer call (fun whole state => whole = wrap state) ?_ calls _ _ rfl
  rintro _ state request rfl
  rw [wrapped]
  cases call state request <;> rfl

def transcript (call : σ → κ → α × σ) : σ → List κ → List α × σ
  | state, [] => ([], state)
  | state, first :: rest =>
    let (answer, next) := call state first
    let (answers, last) := transcript call next rest
    (answer :: answers, last)

theorem transcript_agree (call : σ → κ → α × σ) (otherCall : τ → κ → α × τ)
    (related : σ → τ → Prop)
    (step : ∀ state other request, related state other →
      (call state request).1 = (otherCall other request).1 ∧
      related (call state request).2 (otherCall other request).2)
    (calls : List κ) : ∀ state other, related state other →
      (transcript call state calls).1 = (transcript otherCall other calls).1 ∧
      related (transcript call state calls).2 (transcript otherCall other calls).2 := by
  induction calls with
  | nil => intro state other start; exact ⟨rfl, start⟩
  | cons first rest ih =>
      intro state other start
      obtain ⟨sameAnswer, next⟩ := step state other first start
      obtain ⟨sameAnswers, last⟩ := ih _ _ next
      exact ⟨by simp only [transcript, sameAnswer, sameAnswers], last⟩

end VectorSearch
