import VectorSearch.Failure
/-!
Changes in place. A change makes its writes one after another; what was written before it stops
stays written.
-/

namespace VectorSearch

inductive Stop where
  | refused (failure : Failure)
  /-- It broke down, with or without words. -/
  | panicked (words : Option String)
  deriving DecidableEq, Repr

abbrev Change (σ : Type) (α : Type := Unit) := EStateM Stop σ α

namespace Change

variable {σ ρ α : Type}

def refuse (failure : Failure) : Change σ α := throw (.refused failure)

def ofExcept : Except Stop α → Change σ α
  | .ok value => pure value
  | .error stop => throw stop

/-- Changes a part of a state; the rest of the state is put around it again also after a stop. -/
def runIn (around : ρ → σ) (change : Change ρ α) (part : ρ) : EStateM.Result Stop σ α :=
  match change.run part with
  | .ok value after => .ok value (around after)
  | .error stop after => .error stop (around after)

def within (part : σ → ρ) (around : σ → ρ → σ) (change : Change ρ α) : Change σ α :=
  fun state => change.runIn (around state) (part state)

def after (change : Change σ α) (state : σ) : σ :=
  match change.run state with
  | .ok _ after => after
  | .error _ after => after

def refused (change : Change σ α) (state : σ) : Bool :=
  match change.run state with
  | .error (.refused _) _ => true
  | _ => false

def panics (change : Change σ α) (state : σ) : Bool :=
  match change.run state with
  | .error (.panicked _) _ => true
  | _ => false

def outcome (change : Change σ α) (state : σ) : Except Stop σ :=
  match change.run state with
  | .ok _ after => .ok after
  | .error stop _ => .error stop

end Change

end VectorSearch
