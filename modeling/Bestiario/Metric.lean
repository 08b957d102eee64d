import Bestiario.Lib.Json
import Bestiario.Window

/-! # Metrics

    `crates/stats/src/metric.rs`: one named figure, observed or inferred, and
    how it is written.  A figure that is not a finite number is no figure; that
    is decided in one place, `normalised`, and both output formats go through
    it.

    `Floats F` is what the aggregations take from `f64`. -/

namespace Stats

/-- The arithmetic of `f64`, `F` standing for it. -/
structure Floats (F : Type) where
  /-- `n as f64`. -/
  ofInt : Int → F
  add : F → F → F
  sub : F → F → F
  mul : F → F → F
  div : F → F → F
  isFinite : F → Bool
  /-- `a < b`; false when the two do not compare. -/
  lt : F → F → Bool
  eq : F → F → Bool
  /-- `x.ceil() as i64` and `x.round() as i64`. -/
  ceil : F → Int
  round : F → Int
  /-- The shortest text that reads back as the number. -/
  shortest : F → String
  /-- The text with a fixed number of decimals. -/
  fixed : Nat → F → String

/-- Whole numbers in their place, to compute counts and sums with. -/
def Floats.whole : Floats Int where
  ofInt n := n
  add a b := a + b
  sub a b := a - b
  mul a b := a * b
  div a b := a / b
  isFinite _ := true
  lt a b := decide (a < b)
  eq a b := decide (a = b)
  ceil n := n
  round n := n
  shortest n := toString n
  fixed _ n := toString n

variable {F : Type}

/-- Whether a figure was measured or estimated. -/
inductive MetricKind where
  | observed
  | inferred
  deriving DecidableEq, Repr

/-- A figure and what it counts. -/
inductive Value (F : Type) where
  | count (count : Int)
  | sats (sats : Int)
  | ratio (ratio : F)
  | seconds (seconds : Int)
  | fiat (amount : F) (code : String)
  | text (text : String)
  | missing

namespace Value

variable (A : Floats F)

/-- `Value::ratio`: missing when it is not a finite number. -/
def ofRatio (x : F) : Value F := if A.isFinite x then .ratio x else .missing

/-- `Value::fiat`: likewise. -/
def ofFiat (amount : F) (code : String) : Value F :=
  if A.isFinite amount then .fiat amount code else .missing

/-- The value as a renderer should see it. -/
def normalised : Value F → Value F
  | .ratio x => if A.isFinite x then .ratio x else .missing
  | .fiat amount code => if A.isFinite amount then .fiat amount code else .missing
  | other => other

/-- The `unit` of the wire shape. -/
def unit : Value F → String
  | .count _ => "count"
  | .sats _ => "sats"
  | .ratio _ => "ratio"
  | .seconds _ => "seconds"
  | .fiat _ _ => "fiat"
  | .text _ => "text"
  | .missing => "missing"

/-- A number written by `serde_json`. -/
def int (n : Int) : Json.Value := .num (toString n)

/-- The `value` of the wire shape. -/
def wire : Value F → Json.Value
  | .count n => int n
  | .sats n => int n
  | .ratio x => .num (A.shortest x)
  | .seconds n => int n
  | .fiat amount code => .obj [("amount", .num (A.shortest amount)), ("code", .str code)]
  | .text s => .str s
  | .missing => .null

end Value

/-- One named figure, of one kind, with the error that qualifies it: an inferred
    one has it, an observed one has none. -/
structure Metric (F : Type) where
  name : String
  kind : MetricKind
  value : Value F
  error : Option String
  qualified : error.isSome = decide (kind = .inferred)

namespace Metric

/-- A figure counted straight from what instances published. -/
def observed (name : String) (value : Value F) : Metric F :=
  ⟨name, .observed, value, none, rfl⟩

/-- A figure derived from something else, with the reason it may be wrong. -/
def inferred (name : String) (value : Value F) (error : String) : Metric F :=
  ⟨name, .inferred, value, some error, rfl⟩

/-- The record of a metric: the value flattened into it, an absent error left
    out. -/
def json (A : Floats F) (metric : Metric F) : Json.Value :=
  let value := metric.value.normalised A
  .obj ([("name", .str metric.name),
      ("kind", .str (match metric.kind with | .observed => "observed" | .inferred => "inferred")),
      ("unit", .str value.unit), ("value", value.wire A)]
    ++ (metric.error.map fun error => ("error", Json.Value.str error)).toList)

end Metric

/-! ## Shared shapes -/

/-- `prefix.name`. -/
def dotted (scope name : String) : String := scope ++ "." ++ name

/-- An observed count. -/
def count (scope name : String) (value : Nat) : Metric F :=
  .observed (dotted scope name) (.count value)

/-- An observed ratio, missing when there is none. -/
def ratioMetric (A : Floats F) (scope name : String) (value : Option F) : Metric F :=
  .observed (dotted scope name) (value.elim .missing (Value.ofRatio A))

/-- An observed sum of sats, missing when there is none. -/
def satsMetric (scope name : String) (value : Option Int) : Metric F :=
  .observed (dotted scope name) (value.elim .missing .sats)

/-- An observed duration, missing when there is none. -/
def secondsMetric (scope name : String) (value : Option Int) : Metric F :=
  .observed (dotted scope name) (value.elim .missing .seconds)

section Names

variable (A : Floats F) (scope name error : String)

@[simp] theorem Metric.observed_name (value : Value F) :
    (Metric.observed name value).name = name := rfl

@[simp] theorem Metric.inferred_name (value : Value F) :
    (Metric.inferred name value error).name = name := rfl

@[simp] theorem count_name (value : Nat) :
    (count scope name value : Metric F).name = dotted scope name := rfl

@[simp] theorem ratioMetric_name (value : Option F) :
    (ratioMetric A scope name value).name = dotted scope name := rfl

@[simp] theorem satsMetric_name (value : Option Int) :
    (satsMetric scope name value : Metric F).name = dotted scope name := rfl

@[simp] theorem secondsMetric_name (value : Option Int) :
    (secondsMetric scope name value : Metric F).name = dotted scope name := rfl

end Names

/-- `numerator / denominator`, or nothing when there is nothing to divide by. -/
def ratio (A : Floats F) (numerator denominator : Nat) : Option F :=
  if denominator > 0 then some (A.div (A.ofInt numerator) (A.ofInt denominator)) else none

/-- The `p`-th percentile by nearest rank, `le` being the order of the samples;
    none when there are no samples, or one that does not compare to itself. -/
def percentile {T : Type} (A : Floats F) (le : T → T → Bool) (samples : List T) (p : F) :
    Option T :=
  if samples.any fun sample => !le sample sample then none
  else
    let sorted := samples.mergeSort le
    let rank := (A.ceil (A.mul p (A.ofInt samples.length))).toNat
    sorted[max rank 1 - 1]?

/-- `0.5` and `0.9`. -/
def p50 (A : Floats F) : F := A.div (A.ofInt 1) (A.ofInt 2)

def p90 (A : Floats F) : F := A.div (A.ofInt 9) (A.ofInt 10)

/-- A percentile of sats or seconds. -/
def percentileInt (A : Floats F) (samples : List Int) (p : F) : Option Int :=
  percentile A (fun a b => decide (a ≤ b)) samples p

/-- `∑ sats`, or nothing when the sum leaves `i64`. -/
def sumSats (sats : List Int) : Option Int :=
  if -2 ^ 63 ≤ sats.sum ∧ sats.sum < 2 ^ 63 then some sats.sum else none

end Stats
