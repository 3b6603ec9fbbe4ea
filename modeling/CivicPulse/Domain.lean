/-
  CivicPulse.Domain — categories, priorities, the status machine, text limits, and the
  exceptions the program raises (`app/domain.py`, `app/services/errors.py`).

  An enumeration carries its members in declaration order, its values and the proof that
  values tell members apart, so reading a value back is one function for the three.
  - `ofValue_value`: every member is read back from its value.
  - `mem_allowedTransitions`: the list sent to the client is the transition table.
  - `canTransition_ne`, `not_canTransition_terminal`: no step stays where it is, and none
    leaves a terminal status.
-/

import CivicPulse.Text.Str

namespace CivicPulse

open Text

/-! ## Enumerations -/

/-- A `StrEnum`. -/
class StrEnum (α : Type) [DecidableEq α] where
  members : List α
  value : α → Str
  complete : ∀ a, a ∈ members
  nodup : members.Nodup
  value_inj : ∀ {a b}, value a = value b → a = b

export StrEnum (members value)

/-- `Cls(s)`: the member with value `s`. -/
def ofValue (α : Type) [DecidableEq α] [StrEnum α] (s : Str) : Option α := (members : List α).find? (value · == s)

theorem ofValue_eq_some {α : Type} [DecidableEq α] [StrEnum α] {s : Str} {a : α} :
    ofValue α s = some a ↔ s = value a := by
  constructor
  · intro h
    have := List.find?_some h
    exact (beq_iff_eq.mp this).symm
  · intro h
    subst h
    obtain ⟨b, hb⟩ : ∃ b, ofValue α (value a) = some b := by
      rw [ofValue, ← Option.isSome_iff_exists, List.find?_isSome]
      exact ⟨a, StrEnum.complete a, beq_self_eq_true _⟩
    have := List.find?_some hb
    rw [hb, StrEnum.value_inj (beq_iff_eq.mp this)]

@[simp] theorem ofValue_value {α : Type} [DecidableEq α] [StrEnum α] (a : α) : ofValue α (value a) = some a :=
  ofValue_eq_some.mpr rfl

inductive Category where
  | water
  | electricity
  | sanitation
  | roads
  | streetlights
  | other
  deriving DecidableEq, Repr

inductive Priority where
  | high
  | normal
  | low
  deriving DecidableEq, Repr

inductive Status where
  | open_
  | inProgress
  | resolved
  | rejected
  deriving DecidableEq, Repr

instance : StrEnum Category where
  members := [.water, .electricity, .sanitation, .roads, .streetlights, .other]
  value
    | .water => "water".toList
    | .electricity => "electricity".toList
    | .sanitation => "sanitation".toList
    | .roads => "roads".toList
    | .streetlights => "streetlights".toList
    | .other => "other".toList
  complete a := by cases a <;> decide
  nodup := by decide
  value_inj {a b} := by revert a b; intro a b; cases a <;> cases b <;> decide

instance : StrEnum Priority where
  members := [.high, .normal, .low]
  value
    | .high => "high".toList
    | .normal => "normal".toList
    | .low => "low".toList
  complete a := by cases a <;> decide
  nodup := by decide
  value_inj {a b} := by revert a b; intro a b; cases a <;> cases b <;> decide

instance : StrEnum Status where
  members := [.open_, .inProgress, .resolved, .rejected]
  value
    | .open_ => "open".toList
    | .inProgress => "in_progress".toList
    | .resolved => "resolved".toList
    | .rejected => "rejected".toList
  complete a := by cases a <;> decide
  nodup := by decide
  value_inj {a b} := by revert a b; intro a b; cases a <;> cases b <;> decide

/-! ## The status machine -/

/-- The whole state machine: anything not listed is a conflict. -/
def TRANSITIONS : Status → List Status
  | .open_ => [.inProgress, .rejected]
  | .inProgress => [.resolved, .rejected]
  | .resolved => []
  | .rejected => []

/-- `sorted(TRANSITIONS[current], key=order.index)`: the members in declaration order. -/
def allowedTransitions (current : Status) : List Status := members.filter (TRANSITIONS current).contains

def canTransition (current target : Status) : Bool := (TRANSITIONS current).contains target

def terminal (s : Status) : Bool := (TRANSITIONS s).isEmpty

theorem mem_allowedTransitions {s t : Status} : t ∈ allowedTransitions s ↔ canTransition s t = true := by
  simp [allowedTransitions, canTransition, StrEnum.complete]

theorem canTransition_ne {s t : Status} (h : canTransition s t = true) : s ≠ t := by
  intro e
  subst e
  cases s <;> exact absurd h (by decide)

theorem not_canTransition_terminal {s t : Status} (hs : terminal s = true) : canTransition s t = false := by
  cases s with
  | open_ => exact absurd hs (by decide)
  | inProgress => exact absurd hs (by decide)
  | resolved => rfl
  | rejected => rfl

/-! ## Text limits -/

def TEXT_MIN : Nat := 10
def TEXT_MAX : Nat := 2000
def LOCATION_MIN : Nat := 3
def LOCATION_MAX : Nat := 200
def CONTACT_MAX : Nat := 200
def SUMMARY_MAX : Nat := 140

/-! ## Exceptions -/

/-- One of `exc.errors()`: the place in the request, and what is wrong there. -/
structure FieldError where
  loc : List Str
  msg : Str
  deriving DecidableEq, Repr

/-- What the program's calls raise. A provider may raise anything: `other` is an
    exception of a class of its own. -/
inductive Exc where
  | notFoundError (what : Str)
  | invalidTransitionError (current attempted : Status)
  | rateLimitExceededError (retryAfter : Int)
  | requestValidationError (errors : List FieldError)
  | redisError (cls : Str)
  | databaseError (cls : Str)
  | validationError
  | jsonDecodeError
  | unicodeDecodeError
  | valueError
  | recursionError
  | keyError
  | typeError
  | attributeError
  | triageTimeout
  | triageRateLimited
  | triageUpstream
  | triageBadRequest
  | triageMalformedOutput
  | other (cls : Str)
  deriving DecidableEq, Repr

namespace Exc

/-- `type(exc).__name__`. -/
def className : Exc → Str
  | notFoundError _ => "NotFoundError".toList
  | invalidTransitionError _ _ => "InvalidTransitionError".toList
  | rateLimitExceededError _ => "RateLimitExceededError".toList
  | requestValidationError _ => "RequestValidationError".toList
  | redisError cls => cls
  | databaseError cls => cls
  | validationError => "ValidationError".toList
  | jsonDecodeError => "JSONDecodeError".toList
  | unicodeDecodeError => "UnicodeDecodeError".toList
  | valueError => "ValueError".toList
  | recursionError => "RecursionError".toList
  | keyError => "KeyError".toList
  | typeError => "TypeError".toList
  | attributeError => "AttributeError".toList
  | triageTimeout => "TriageTimeout".toList
  | triageRateLimited => "TriageRateLimited".toList
  | triageUpstream => "TriageUpstreamError".toList
  | triageBadRequest => "TriageBadRequest".toList
  | triageMalformedOutput => "TriageMalformedOutput".toList
  | other cls => cls

/-- `str(exc)` of the exceptions that reach a client. -/
def message : Exc → Str
  | notFoundError what => what ++ " not found".toList
  | invalidTransitionError current attempted =>
    let nxt := join ", ".toList ((allowedTransitions current).map value)
    "Invalid status transition: ".toList ++ value current ++ " → ".toList ++ value attempted ++ ". '".toList ++
      value current ++ "' can move to: ".toList ++
      (if nxt.isEmpty then "nothing (terminal state)".toList else nxt) ++ ".".toList
  | rateLimitExceededError retryAfter =>
    "Too many complaints from this address. Try again in ".toList ++ intText retryAfter ++ " s.".toList
  | _ => []

/-- Caught by `except redis.RedisError`. -/
def isRedisError : Exc → Bool
  | redisError _ => true
  | _ => false

/-- Caught by `except ValueError`: Pydantic's, the decoder's and the codec's errors are
    subclasses of it. -/
def isValueError : Exc → Bool
  | validationError | jsonDecodeError | unicodeDecodeError | valueError => true
  | _ => false

/-- Caught by `except (KeyError, ValueError)`. -/
def isKeyOrValueError (e : Exc) : Bool := e == keyError || e.isValueError

end Exc

end CivicPulse
