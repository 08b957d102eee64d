import Bestiario.Fees

/-! # Disputes

    `crates/stats/src/disputes.rs`: the disputes opened and resolved in a
    window, and the book of those still open, which is about *now* and not about
    the window. -/

namespace Stats

open Wire

variable {F : Type}

/-- The six statuses of a dispute, in the order they are listed. -/
inductive DisputeStatus where
  | initiated
  | inProgress
  | sellerRefunded
  | settled
  | released
  | cooperativelyCanceled
  deriving DecidableEq, Repr

namespace DisputeStatus

/-- `Status::ALL`. -/
def all : List DisputeStatus :=
  [.initiated, .inProgress, .sellerRefunded, .settled, .released, .cooperativelyCanceled]

/-- `Status::TERMINAL`. -/
def terminal : List DisputeStatus :=
  [.sellerRefunded, .settled, .released, .cooperativelyCanceled]

def asKey : DisputeStatus → String
  | .initiated => "initiated"
  | .inProgress => "in_progress"
  | .sellerRefunded => "seller_refunded"
  | .settled => "settled"
  | .released => "released"
  | .cooperativelyCanceled => "cooperatively_canceled"

end DisputeStatus

/-- Which side opened it. -/
inductive DisputeInitiator where
  | buyer
  | seller
  deriving DecidableEq, Repr

/-- One dispute. -/
structure Dispute where
  disputeId : String
  instance' : String
  openedAt : Int
  status : DisputeStatus
  initiator : Option DisputeInitiator
  resolvedAt : Option Int
  outcome : Option DisputeStatus

/-- An order that left the book by being taken. -/
structure Taken where
  orderId : String
  instance' : String
  leftPendingAt : Int

/-- What the dispute figures are computed from. -/
structure DisputeData where
  disputes : List Dispute
  taken : List Taken

/-- One dispute still open, and for how long. -/
structure OpenDispute where
  disputeId : String
  age : Int

/-- The disputes of one window. -/
structure Disputes (F : Type) where
  opened : Nat
  byStatus : List Nat
  buyerShare : Option F
  rate : Option F
  resolved : Nat
  outcome : Option (List F)
  resolutionP50 : Option Int
  resolutionP90 : Option Int
  openNow : List OpenDispute

/-- `disputes::by_instance`: the part of the data filed under one label. -/
def DisputeData.ofInstance (data : DisputeData) (label : String) : Option DisputeData :=
  let own : DisputeData := {
    disputes := data.disputes.filter fun dispute => dispute.instance' == label
    taken := data.taken.filter fun order => order.instance' == label }
  if own.disputes.isEmpty && own.taken.isEmpty then none else some own

namespace Disputes

/-- The open book: oldest first, ties by id. -/
def book (data : DisputeData) (now : Int) : List OpenDispute :=
  let waiting := data.disputes.filter fun dispute =>
    dispute.status == .initiated && decide (dispute.openedAt ≤ now)
  (waiting.mergeSort fun a b => decide (a.openedAt < b.openedAt)
    || a.openedAt == b.openedAt && decide (a.disputeId ≤ b.disputeId)).map fun dispute =>
      ⟨dispute.disputeId, wrapI64 (now - dispute.openedAt)⟩

/-- `disputes::summarise`. -/
def summarise (A : Floats F) (data : DisputeData) (window : Window) (now : Int) :
    Disputes F :=
  let opened := data.disputes.filter fun dispute => window.contains dispute.openedAt
  let buyers := opened.countP fun dispute => dispute.initiator == some .buyer
  let taken := data.taken.countP fun order => window.contains order.leftPendingAt
  let resolved := data.disputes.filter fun dispute => dispute.resolvedAt.any window.contains
  let resolution := resolved.filterMap fun dispute =>
    dispute.resolvedAt.map fun resolvedAt => wrapI64 (resolvedAt - dispute.openedAt)
  { opened := opened.length
    byStatus := DisputeStatus.all.map fun status =>
      opened.countP fun dispute => dispute.status == status
    buyerShare := ratio A buyers (opened.countP fun dispute => dispute.initiator.isSome)
    rate := ratio A opened.length taken
    resolved := resolved.length
    outcome :=
      if resolved.isEmpty then none
      else some (DisputeStatus.terminal.map fun status =>
        A.div (A.ofInt (resolved.countP fun dispute => dispute.outcome == some status))
          (A.ofInt resolved.length))
    resolutionP50 := percentileInt A resolution (p50 A)
    resolutionP90 := percentileInt A resolution (p90 A)
    openNow := book data now }

/-- `status_metrics`. -/
def statusMetrics (scope : String) (disputes : Disputes F) : List (Metric F) :=
  (DisputeStatus.all.zip disputes.byStatus).map fun (status, n) =>
    count scope ("status." ++ status.asKey) n

/-- `initiator_metrics`. -/
def initiatorMetrics (A : Floats F) (scope : String) (disputes : Disputes F) :
    List (Metric F) :=
  [ratioMetric A scope "initiator.buyer" disputes.buyerShare,
    ratioMetric A scope "initiator.seller"
      (disputes.buyerShare.map fun buyer => A.sub (A.ofInt 1) buyer)]

/-- `dated_metrics`: the figures that are about the window. -/
def datedMetrics (A : Floats F) (scope : String) (disputes : Disputes F) : List (Metric F) :=
  [count scope "opened" disputes.opened]
    ++ statusMetrics scope disputes
    ++ initiatorMetrics A scope disputes
    ++ [ratioMetric A scope "rate" disputes.rate,
      count scope "resolved" disputes.resolved]
    ++ DisputeStatus.terminal.zipIdx.map (fun (status, i) =>
      ratioMetric A scope ("outcome." ++ status.asKey)
        (disputes.outcome.bind fun shares => shares[i]?))
    ++ [secondsMetric scope "resolution_p50" disputes.resolutionP50,
      secondsMetric scope "resolution_p90" disputes.resolutionP90]

/-- The figures about *now*: how many are open, and each of them. -/
def openMetrics (scope : String) (disputes : Disputes F) : List (Metric F) :=
  count scope "open_now" disputes.openNow.length
    :: disputes.openNow.zipIdx.flatMap fun (dispute, i) =>
      [.observed (dotted scope ("open." ++ toString (i + 1) ++ ".id")) (.text dispute.disputeId),
        secondsMetric scope ("open." ++ toString (i + 1) ++ ".age") (some dispute.age)]

/-- `disputes::metrics`. -/
def metrics (A : Floats F) (scope : String) (disputes : Disputes F) : List (Metric F) :=
  datedMetrics A scope disputes ++ openMetrics scope disputes

end Disputes

end Stats
