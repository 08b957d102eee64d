import Bestiario.Posting
import Bestiario.Dialling

/-! # The command that publishes

    `src/commands/publish.rs` and `publication_runs` of `src/db/repo/published.rs`.
    A run refuses what it must before anything is signed, sends the documents that
    are not on the relays yet, then the index, and writes down what it published only
    once the index was taken.

    The archive is read in several reads, and an ingest may run between them: what a
    run reads of it is here any extent, any data and any count.  A relay answers as it
    likes.  What is left of a run in the database is its LEDGER: the documents as they
    were last published, and the runs. -/

namespace Publish

open Keyed
open Stats (rfc3339 Floats)

variable {F : Type}

/-! ## What is remembered of a run -/

/-- `published::Run`. -/
structure PastRun where
  snapshotId : String
  generatedAt : Int
  schemaVersion : Nat
  firstEventAt : Option Int
  lastEventAt : Option Int
  events : Nat
  deriving DecidableEq

/-- A row of `publication_runs`. -/
structure RunRow where
  snapshotId : String
  generatedAt : Int
  schemaVersion : Int
  firstEventAt : Option Int
  lastEventAt : Option Int
  events : Int
  deriving DecidableEq

/-- The row a run is written as. -/
def PastRun.row (run : PastRun) : RunRow where
  snapshotId := run.snapshotId
  generatedAt := run.generatedAt
  schemaVersion := run.schemaVersion
  firstEventAt := run.firstEventAt
  lastEventAt := run.lastEventAt
  -- `events as i64`.
  events := ((run.events : Int) + 2 ^ 63) % 2 ^ 64 - 2 ^ 63

/-- The run a row is read as. -/
def RunRow.run (row : RunRow) : PastRun where
  snapshotId := row.snapshotId
  generatedAt := row.generatedAt
  schemaVersion := (max row.schemaVersion 0).toNat % 2 ^ 32
  firstEventAt := row.firstEventAt
  lastEventAt := row.lastEventAt
  events := (max row.events 0).toNat

/-- `ORDER BY generated_at DESC, snapshot_id DESC`. -/
def RunRow.newest (row : RunRow) : Intᵒᵈ ×ₗ Stringᵒᵈ :=
  toLex (OrderDual.toDual row.generatedAt, OrderDual.toDual row.snapshotId)

/-- `published_documents` and `publication_runs`. -/
structure Ledger where
  published : Published
  runs : Table String RunRow

namespace Ledger

/-- Nothing was ever published. -/
def empty : Ledger := ⟨∅, ∅⟩

/-- `latest_run`. -/
def latestRun (ledger : Ledger) : Option PastRun :=
  (first RunRow.newest ledger.runs fun _ => true).map RunRow.run

/-- `record_run`: an upsert. -/
def recordRun (ledger : Ledger) (run : PastRun) : Ledger :=
  { ledger with runs := ledger.runs.insert run.snapshotId run.row }

end Ledger

/-! ## Why the figures moved -/

/-- `Read`: what a run read, as far as the reasons go. -/
structure Read where
  schemaVersion : Nat
  coveredFrom : Option Int
  events : Nat

/-- `Because::inferred`. -/
def Because.inferred (previous current : Read) : Because :=
  if previous.schemaVersion ≠ schemaVersion then .schema
  else
    let deepened := match previous.coveredFrom, current.coveredFrom with
      | some before, some now => decide (now < before)
      | none, some _ => true
      | _, none => false
    if deepened || decide (current.events > previous.events) then .backfill else .rebuild

/-! ## A run -/

/-- `[publish]`; `nsec` is the name of a variable. -/
structure PublishSettings where
  relays : List String
  maxContentBytes : Nat
  nsec : Option String

/-- A signing key. -/
structure Keys where
  secret : String

/-- `Delivery`: what became of one event, relay by relay. -/
structure Delivery where
  accepted : List String
  refused : List (String × String)
  deriving DecidableEq

/-- `is_published`. -/
def Delivery.isPublished (delivery : Delivery) : Bool := !delivery.accepted.isEmpty

/-- What a run reads of the archive; the count is one the database made. -/
structure Archive (F : Type) where
  earliest : Option Int
  latest : Option Int
  data : Stats.Data F
  events : Nat
  counted : events < 2 ^ 63

/-- The invocation. -/
structure Command where
  dryRun : Bool
  out : Bool
  republish : Bool
  from' : Option Int
  until' : Option Int
  instance' : Option String
  network : Option String
  now : Int

/-- What a run finds around it: the configuration, the environment, the key library,
    the disk, the relays and the archive. -/
structure Surroundings (F : Type) where
  settings : PublishSettings
  environment : String → Option String
  fromBech32 : String → Option Keys
  fromHex : String → Option Keys
  npub : Keys → String
  /-- Whether the files of `--out` could be written. -/
  writes : Bool
  pass : Dialling.Pass
  serves : String → Option Int
  /-- What comes of the event at a place of the run, or why it could not be sent. -/
  answer : Nat → Posting → Except String Delivery
  archive : Archive F

/-- Why a run came to nothing. -/
inductive Refusal where
  | narrowed
  | missingEnv (name : String)
  | malformed (setting : String)
  | noKey
  | stalled (now : Int) (last : PastRun)
  | emptyRange (range : Stats.Window)
  | oversized (tooLarge : List Measured) (ceiling : Ceiling)
  | unwritten
  | unreachable (attempted : Nat)
  | unsent (reason : String)
  | undelivered (addresses : List String)
  | indexRefused

/-- One line under another. -/
def lines (texts : List String) : String := "\n".intercalate texts

/-- The message; what the disk or the transport says of itself is its own. -/
def Refusal.text : Refusal → String
  | .narrowed => "`publish` cannot be scoped with --instance or --network: a snapshot "
      ++ "decides its own scopes — the network-wide documents and one per instance — and "
      ++ "narrowing the run would sign those addresses over a subset of the archive"
  | .missingEnv name => "the environment variable `" ++ name ++ "`, named by "
      ++ "[publish].nsec, is not set: export the signing key into it"
  | .malformed setting => setting ++ " is not a signing key: expected `nsec1…` or 64 "
      ++ "hexadecimal characters"
  | .noKey => "`publish` has no signing key: point [publish].nsec at an environment "
      ++ "variable holding one, or pass --dry-run to review the snapshot, or --out <dir> to "
      ++ "write it as files"
  | .stalled now last => "the clock has not advanced past the last publication: this run "
      ++ "is timestamped " ++ rfc3339 now ++ " and snapshot " ++ last.snapshotId
      ++ " was published at " ++ rfc3339 last.generatedAt ++ ". Every document carries "
      ++ "that timestamp, and a relay keeps the copy with the later one, so this run would "
      ++ "replace nothing while reporting success. Wait until the clock passes it and run again"
  | .emptyRange range => "--republish over an empty range: --from " ++ toString range.from'
      ++ " is not before --until " ++ toString range.until' ++ ". Nothing overlaps it, so "
      ++ "the run would republish nothing while appearing to succeed"
  | .oversized tooLarge ceiling => toString tooLarge.length ++ " document(s) exceed the "
      ++ toString ceiling.bytes ++ "-byte ceiling"
      ++ (ceiling.relay.elim " of [publish].max_content_bytes" (" advertised by " ++ ·))
      ++ ":\n" ++ lines (tooLarge.map fun document =>
        "  " ++ document.address.toString ++ " is " ++ toString document.bytes ++ " bytes")
  | .unwritten => "writing"
  | .unreachable attempted => "none of the " ++ toString attempted ++ " configured relays "
      ++ "could be reached; nothing would be indexed"
  | .unsent reason => reason
  | .undelivered addresses => toString addresses.length ++ " document(s) reached no relay, "
      ++ "so the index naming them was not published:\n" ++ lines (addresses.map ("  " ++ ·))
  | .indexRefused => "every document was published but the index was refused by every "
      ++ "relay: a client reading the previous index will not see this snapshot"

/-! ## What is refused before anything is signed -/

/-- `refuse_scoped`. -/
def refuseScoped (command : Command) : Except Refusal Unit :=
  if command.instance'.isNone && command.network.isNone then .ok () else .error .narrowed

/-- `signer::parse`: a key as a key-management tool writes it. -/
def Keys.parse (W : Surroundings F) (raw setting : String) : Except Refusal Keys :=
  let value := Wire.trim raw
  let secret := if "nsec1".toList.isPrefixOf value.toList then W.fromBech32 value
    else W.fromHex value
  secret.elim (.error (.malformed setting)) .ok

/-- `signer::resolve`. -/
def Keys.resolve (W : Surroundings F) (name : String) : Except Refusal Keys :=
  match W.environment name with
  | none => .error (.missingEnv name)
  | some secret => Keys.parse W secret ("`" ++ name ++ "`")

/-- The key of the run: only one that will sign asks for it. -/
def Command.keys (W : Surroundings F) (command : Command) : Except Refusal (Option Keys) :=
  match command.dryRun, W.settings.nsec with
  | false, some name => (Keys.resolve W name).map some
  | _, _ => .ok none

/-- A run with nothing to do is refused. -/
def refuseIdle (command : Command) (keys : Option Keys) : Except Refusal Unit :=
  if command.dryRun || command.out || keys.isSome then .ok () else .error .noKey

/-- `refuse_stalled_clock`. -/
def refuseStalledClock (last : Option PastRun) (now : Int) : Except Refusal Unit :=
  match last with
  | none => .ok ()
  | some last => if now > last.generatedAt then .ok () else .error (.stalled now last)

/-- Only a run that will sign has a clock to answer for. -/
def refuseStalledRun (ledger : Ledger) (keys : Option Keys) (now : Int) :
    Except Refusal Unit :=
  if keys.isSome then refuseStalledClock ledger.latestRun now else .ok ()

/-- `requested`: one end given is a half-open range. -/
def requested (command : Command) : Except Refusal Republish :=
  if !command.republish then .ok .no
  else
    match command.from', command.until' with
    | none, none => .ok .all
    | from', until' =>
        let range : Stats.Window := ⟨from'.getD 0, until'.getD (2 ^ 63 - 1)⟩
        if range.from' < range.until' then .ok (.range range) else .error (.emptyRange range)

/-! ## What a run computes -/

/-- `Publication`. -/
structure Publication (F : Type) where
  snapshot : Snapshot F
  index : Index
  ceiling : Ceiling
  relaysAsked : Nat
  measured : List Measured
  notSent : Finset String
  state : Table String Previous
  events : Nat

/-- `publisher`. -/
def publisher : Publisher := ⟨"bestiario", "0.2.0"⟩

/-- `Coverage::from_extent`. -/
def Coverage.fromExtent (earliest latest : Option Int) : Coverage := ⟨earliest, latest⟩

/-- The extent a run states. -/
def Archive.coverage (archive : Archive F) : Coverage :=
  .fromExtent archive.earliest archive.latest

/-- What this run read. -/
def Archive.read (archive : Archive F) : Read :=
  ⟨schemaVersion, archive.coverage.earliest, archive.events⟩

/-- What a past run read. -/
def PastRun.read (run : PastRun) : Read := ⟨run.schemaVersion, run.firstEventAt, run.events⟩

/-- `compute`. -/
def compute (digest : String → String) (A : Floats F) (W : Surroundings F) (ledger : Ledger)
    (republish : Republish) (now : Int) : Publication F :=
  let because := Because.inferred (ledger.latestRun.elim W.archive.read PastRun.read)
    W.archive.read
  let restated := (Snapshot.compute digest A W.archive.data W.archive.coverage
    (snapshotId now) now).restated ledger.published.all because republish
  let index := restated.snapshot.index publisher
  let advertised := limits W.serves W.settings.relays
  { snapshot := restated.snapshot
    index := index
    ceiling := (Ceiling.configured W.settings.maxContentBytes).lowered advertised
    relaysAsked := advertised.length
    measured := measure A restated.snapshot.documents ++ [measureIndex index]
    notSent := restated.notSent
    state := restated.state
    events := W.archive.events }

/-- `refuse_oversized`. -/
def refuseOversized (publication : Publication F) : Except Refusal Unit :=
  let tooLarge := Measured.over publication.measured publication.ceiling
  if tooLarge.isEmpty then .ok () else .error (.oversized tooLarge publication.ceiling)

/-- `write`, when files were asked for. -/
def Command.write (W : Surroundings F) (command : Command) : Except Refusal Unit :=
  if command.out && !W.writes then .error .unwritten else .ok ()

/-- Everything before the relays: what is to be published, and the key if it is to be
    signed. -/
def prepare (digest : String → String) (A : Floats F) (W : Surroundings F) (ledger : Ledger)
    (command : Command) : Except Refusal (Publication F × Option Keys) := do
  refuseScoped command
  let keys ← command.keys W
  refuseIdle command keys
  refuseStalledRun ledger keys command.now
  let republish ← requested command
  let publication := compute digest A W ledger republish command.now
  refuseOversized publication
  command.write W
  return (publication, keys)

/-! ## Sending -/

/-- `IN_FLIGHT`. -/
def inFlight : Nat := 16

/-- What a run handed to the relays, and what came of each: the documents in the order
    of the snapshot, and the index if it came to that. -/
structure Sent (F : Type) where
  documents : List (Document F × Except String Delivery)
  index : Option (Except String Delivery)

/-- The documents a publication sends. -/
def Publication.toSend (publication : Publication F) : List (Document F) :=
  publication.snapshot.documents.filter fun document =>
    decide (document.address.toString ∉ publication.notSent)

/-- What would come of each document, were it handed over. -/
def attempts (A : Floats F) (W : Surroundings F) (publication : Publication F) :
    List (Document F × Except String Delivery) :=
  publication.toSend.mapIdx fun i document =>
    (document, W.answer i (Signer.sign A publication.snapshot.run document))

/-- `buffered`: handed over when the first that could not be sent was found out. -/
def started {α ε β : Type} (attempts : List (α × Except ε β)) : List (α × Except ε β) :=
  attempts.take (attempts.findIdx (fun attempt => !attempt.2.isOk) + inFlight)

/-- `try_collect`: every answer in order, or the first failure. -/
def tryCollect {α ε β : Type} : List (α × Except ε β) → Except ε (List (α × β))
  | [] => .ok []
  | (_, .error error) :: _ => .error error
  | (document, .ok delivery) :: rest => (tryCollect rest).map ((document, delivery) :: ·)

/-- The documents nobody took. -/
def refusals (deliveries : List (Document F × Delivery)) : List String :=
  (deliveries.filter fun delivery => !delivery.2.isPublished).map fun delivery =>
    delivery.1.address.toString

/-- What is reported of a run that came to its end. -/
def report (W : Surroundings F) (client : Dialling.RelayClient) (keys : Keys)
    (publication : Publication F) (deliveries : List (Document F × Delivery)) : String :=
  "publishing to " ++ toString client.relays.length ++ " relay(s) as " ++ W.npub keys ++ "\n"
    ++ String.join (deliveries.flatMap fun delivery => delivery.2.refused.map fun refused =>
      "  " ++ delivery.1.address.toString ++ " refused by " ++ refused.1 ++ ": " ++ refused.2
        ++ "\n")
    ++ "snapshot " ++ publication.snapshot.run.snapshotId ++ " published: "
    ++ toString publication.toSend.length ++ " document(s) sent, "
    ++ toString publication.notSent.card ++ " unchanged, index last\n"

/-- `send_to`. -/
def sendTo (A : Floats F) (W : Surroundings F) (publication : Publication F) (keys : Keys)
    (client : Dialling.RelayClient) : Sent F × Except Refusal String :=
  let handed := started (attempts A W publication)
  match tryCollect (attempts A W publication) with
  | .error reason => (⟨handed, none⟩, .error (.unsent reason))
  | .ok deliveries =>
      -- Before the index, not after: it would name a document no relay holds.
      if !(refusals deliveries).isEmpty then
        (⟨handed, none⟩, .error (.undelivered (refusals deliveries)))
      else
        let index := W.answer publication.toSend.length
          (Signer.signIndex publication.snapshot.run publication.index)
        (⟨handed, some index⟩,
          match index with
          | .error reason => .error (.unsent reason)
          | .ok delivery =>
              if delivery.isPublished then .ok (report W client keys publication deliveries)
              else .error .indexRefused)

/-- The run as it is remembered. -/
def Publication.pastRun (publication : Publication F) : PastRun where
  snapshotId := publication.snapshot.run.snapshotId
  generatedAt := publication.snapshot.run.generatedAt
  schemaVersion := schemaVersion
  firstEventAt := publication.snapshot.coverage.earliest
  lastEventAt := publication.snapshot.coverage.latest
  events := publication.events

/-- `record`: one transaction. -/
def Ledger.record (ledger : Ledger) (publication : Publication F) : Ledger :=
  { ledger with published := ledger.published.record publication.state }.recordRun
    publication.pastRun

/-- What a run came to: what it computed and let through, what it handed to the relays,
    and what it reports. -/
structure Outcome (F : Type) where
  publication : Option (Publication F)
  sent : Sent F
  result : Except Refusal (Option String)

/-- `run`. -/
def run (digest : String → String) (A : Floats F) (W : Surroundings F) (command : Command)
    (ledger : Ledger) : Outcome F × Ledger :=
  match prepare digest A W ledger command with
  | .error refusal => (⟨none, ⟨[], none⟩, .error refusal⟩, ledger)
  | .ok (publication, none) => (⟨some publication, ⟨[], none⟩, .ok none⟩, ledger)
  | .ok (publication, some keys) =>
      match Dialling.RelayClient.connect W.pass W.settings.relays with
      | none =>
          (⟨some publication, ⟨[], none⟩,
            .error (.unreachable W.settings.relays.length)⟩, ledger)
      | some client =>
          match sendTo A W publication keys client with
          | (sent, .error refusal) => (⟨some publication, sent, .error refusal⟩, ledger)
          | (sent, .ok report) =>
              (⟨some publication, sent, .ok (some report)⟩, ledger.record publication)

end Publish
