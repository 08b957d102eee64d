import Bestiario.Tally

/-! # Walking the relays a walk finds

    `walk_with_discovery` of `commands/backfill.rs`.  The walk of the relays
    dialled at the start may bring relay lists that name others; each round reads
    the connection set again, dials what is new and walks only that.  A round that
    finds nothing to walk ends the run, and the third round ends it anyway.

    The network is arbitrary: who answers a dial may differ from pass to pass, and
    so may what a relay answers a walk with.  Nothing else writes to the database
    while the run is under way. -/

namespace Dialling

open Keyed Wire Parse Repo Pipeline
open History (Counts Backfill Walked Answer Answers resolve)
open Sync (Range)

variable {F : Type} {X : Externals F}

/-- `MAX_DISCOVERY_ROUNDS`. -/
def maxDiscoveryRounds : Nat := 3

/-- One `backfill`, and the network it meets. -/
structure Invocation where
  settings : NostrSettings
  policy : Policy
  authors : List String
  listed : List String
  windowLimit : Nat
  /-- `PublicKey::parse`, rendered as the hex it was read from. -/
  parseKey : String → Option String
  kinds : List UInt16
  range : Range
  now : Int
  /-- `RelayUrl::from_str`. -/
  parseUrl : String → Option String
  /-- Whether a relay answers, in which pass and at which place of the list. -/
  dials : Nat → Nat → String → Bool
  /-- What a relay answers the walk of a kind with, in which pass. -/
  answer : Nat → String → UInt16 → Answer

/-- How far a run has come. -/
structure Progress (F : Type) where
  client : RelayClient
  db : Db F
  counts : Counts
  touches : List Touch
  walked : List String
  /-- The pass dialled last; connecting is pass 0. -/
  lastPass : Nat
  /-- The rounds that walked something. -/
  rounds : Nat

/-- How a run ends: nobody to dial, or walked. -/
inductive Finished (F : Type) where
  | unreachable (db : Db F)
  | walked (p : Progress F)

namespace Invocation

/-- The network of one pass. -/
def pass (I : Invocation) (round : Nat) : Pass := ⟨I.parseUrl, I.dials round⟩

/-- The walk of one relay. -/
def walker (I : Invocation) (relay : String) : Backfill :=
  ⟨relay, I.authors, I.listed, I.windowLimit, I.parseKey⟩

/-- One relay, kind after kind; `none` when a walk does not end. -/
def walkKinds (X : Externals F) (I : Invocation) (fuel round : Nat) (relay : String) :
    List UInt16 → Progress F → Option (Progress F)
  | [], p => some p
  | kind :: rest, p =>
      match (I.walker relay).walk X I.policy kind I.range I.now (I.answer round relay kind)
          p.db fuel with
      | none => none
      | some w => I.walkKinds X fuel round relay rest {
          p with
          db := w.db
          counts := p.counts.add w.counts
          touches := p.touches ++ deliveries relay I.now w.handed }

/-- `walk_relays`. -/
def walkRelays (X : Externals F) (I : Invocation) (fuel round : Nat) :
    List String → Progress F → Option (Progress F)
  | [], p => some p
  | relay :: rest, p =>
      match I.walkKinds X fuel round relay I.kinds p with
      | none => none
      | some p => I.walkRelays X fuel round rest { p with walked := p.walked ++ [relay] }

/-- The connection set read again, and handed to the client. -/
def rediscover (I : Invocation) (p : Progress F) : Progress F where
  client := p.client.reconfigure (connectionSet I.settings I.now p.db).1
  db := (connectionSet I.settings I.now p.db).2
  counts := p.counts
  touches := p.touches ++ [.connect I.settings I.now]
  walked := p.walked
  lastPass := p.lastPass
  rounds := p.rounds

/-- The relays in play after a pass that were not before it. -/
def fresh (I : Invocation) (round : Nat) (client : RelayClient) : List String :=
  (client.reattach (I.pass round)).relays.filter fun relay => !client.relays.contains relay

/-- The rounds of `walk_with_discovery`: how many are left, and which comes next. -/
def discover (X : Externals F) (I : Invocation) (fuel : Nat) :
    Nat → Nat → Progress F → Option (Progress F)
  | 0, _, p => some p
  | left + 1, round, p =>
      let p := I.rediscover p
      if (p.client.unattached I.parseUrl).isEmpty then some p
      else
        let fresh := I.fresh round p.client
        let p := { p with client := p.client.reattach (I.pass round), lastPass := round }
        if fresh.isEmpty then some p
        else
          match I.walkRelays X fuel round fresh { p with rounds := round } with
          | none => none
          | some p => I.discover X fuel left (round + 1) p

/-- `walk_with_discovery`: the walk, and then the relays the walk itself found. -/
def walkWithDiscovery (X : Externals F) (I : Invocation) (fuel : Nat) (p : Progress F) :
    Option (Progress F) :=
  match I.walkRelays X fuel 0 p.client.relays p with
  | none => none
  | some p =>
      if I.settings.discoverRelays then I.discover X fuel maxDiscoveryRounds 1 p else some p

/-- `backfill`, up to what it records and prints. -/
def run (X : Externals F) (I : Invocation) (fuel : Nat) (db : Db F) : Option (Finished F) :=
  let set := connectionSet I.settings I.now db
  match RelayClient.connect (I.pass 0) set.1 with
  | none => some (.unreachable set.2)
  | some client =>
      (I.walkWithDiscovery X fuel
        ⟨client, set.2, {}, [.connect I.settings I.now], [], 0, 0⟩).map .walked

end Invocation

/-! ## What a walk of relays does -/

/-- From one point of a run to a later one: the relays walked, and what happened in
    between told by its touches. -/
structure Walks (X : Externals F) (I : Invocation) (relays : List String)
    (p p' : Progress F) : Prop where
  client : p'.client = p.client
  rounds : p'.rounds = p.rounds
  lastPass : p'.lastPass = p.lastPass
  walked : p'.walked = p.walked ++ relays
  touches : ∃ more, p'.touches = p.touches ++ more
    ∧ p'.db = touched X I.policy more p.db
    ∧ p'.counts = p.counts.add (tally X I.policy more p.db)

section Walks

variable {I : Invocation} {fuel round : Nat} {p p' q : Progress F}

theorem Walks.refl (p : Progress F) : Walks X I [] p p where
  client := rfl
  rounds := rfl
  lastPass := rfl
  walked := (List.append_nil _).symm
  touches := ⟨[], (List.append_nil _).symm, rfl, rfl⟩

theorem Walks.trans {relays later : List String} (h : Walks X I relays p q)
    (h' : Walks X I later q p') : Walks X I (relays ++ later) p p' := by
  obtain ⟨more, htouches, hdb, hcounts⟩ := h.touches
  obtain ⟨more', htouches', hdb', hcounts'⟩ := h'.touches
  exact {
    client := h'.client.trans h.client
    rounds := h'.rounds.trans h.rounds
    lastPass := h'.lastPass.trans h.lastPass
    walked := by rw [h'.walked, h.walked, List.append_assoc]
    touches := by
      refine ⟨more ++ more', ?_, ?_, ?_⟩
      · rw [htouches', htouches, List.append_assoc]
      · rw [hdb', hdb, touched_append]
      · rw [hcounts', hcounts, add_assoc, tally_append, hdb] }

theorem walkKinds_spec {relay : String} {kinds : List UInt16}
    (h : I.walkKinds X fuel round relay kinds p = some p') : Walks X I [] p p' := by
  induction kinds generalizing p with
  | nil =>
      cases h
      exact Walks.refl _
  | cons kind rest ih =>
      rw [Invocation.walkKinds] at h
      cases hwalk : (I.walker relay).walk X I.policy kind I.range I.now
          (I.answer round relay kind) p.db fuel with
      | none =>
          rw [hwalk] at h
          exact nomatch h
      | some w =>
          rw [hwalk] at h
          obtain ⟨hdb, hcounts⟩ := walk_deliveries hwalk
          have hone : Walks X I [] p {
              p with
              db := w.db
              counts := p.counts.add w.counts
              touches := p.touches ++ deliveries relay I.now w.handed } := {
            client := rfl
            rounds := rfl
            lastPass := rfl
            walked := (List.append_nil _).symm
            touches := ⟨deliveries relay I.now w.handed, rfl, hdb, by rw [hcounts]; rfl⟩ }
          exact hone.trans (ih h)

theorem walkRelays_spec {relays : List String}
    (h : I.walkRelays X fuel round relays p = some p') : Walks X I relays p p' := by
  induction relays generalizing p with
  | nil =>
      cases h
      exact Walks.refl _
  | cons relay rest ih =>
      rw [Invocation.walkRelays] at h
      cases hkinds : I.walkKinds X fuel round relay I.kinds p with
      | none =>
          rw [hkinds] at h
          exact nomatch h
      | some q =>
          rw [hkinds] at h
          have hq := walkKinds_spec hkinds
          have hone : Walks X I [relay] p { q with walked := q.walked ++ [relay] } := {
            client := hq.client
            rounds := hq.rounds
            lastPass := hq.lastPass
            walked := by
              show q.walked ++ [relay] = _
              rw [hq.walked, List.append_nil]
            touches := hq.touches }
          exact hone.trans (ih h)

end Walks

/-! ## What holds between rounds -/

/-- What the client is told of is in play, or was refused at every place of the pass. -/
def Settled (I : Invocation) (round : Nat) (client : RelayClient) : Prop :=
  ∀ u, Names I.parseUrl client.configured u → u ∈ client.relays
    ∨ ∀ i url, client.configured[i]? = some url → I.parseUrl url = some u →
        I.dials round i u = false

/-- Between rounds: what is in play has been walked, once, and the set of now still
    names it; the last pass settled the rest. -/
structure Between (I : Invocation) (round : Nat) (p : Progress F) : Prop where
  once : p.walked.Nodup
  walked : ∀ u, u ∈ p.walked ↔ u ∈ p.client.relays
  named : ∀ u ∈ p.client.relays, Names I.parseUrl (connectionSet I.settings I.now p.db).1 u
  settled : Settled I round p.client

section Rounds

variable {I : Invocation} {fuel round left : Nat} {p p' : Progress F}

/-- The set of a later database names what that of an earlier one does. -/
theorem names_later {db : Db F} {more : List Touch} {u : String}
    (h : Names I.parseUrl (connectionSet I.settings I.now db).1 u) :
    Names I.parseUrl (connectionSet I.settings I.now (touched X I.policy more db)).1 u := by
  obtain ⟨url, hurl, hread⟩ := h
  exact ⟨url, mem_connectionSet_touched hurl, hread⟩

theorem names_twice {db : Db F} {u : String}
    (h : Names I.parseUrl (connectionSet I.settings I.now db).1 u) :
    Names I.parseUrl
      (connectionSet I.settings I.now (connectionSet I.settings I.now db).2).1 u := by
  rw [connectionSet_twice]
  exact h

/-- A pass settles what the client was told of. -/
theorem settled_reattach (client : RelayClient) :
    Settled I round (client.reattach (I.pass round)) := by
  intro u hnamed
  by_cases hplay : u ∈ (client.reattach (I.pass round)).relays
  · exact Or.inl hplay
  · refine Or.inr fun i url hi hread => ?_
    by_contra hanswers
    rw [Bool.not_eq_false] at hanswers
    exact hplay (mem_reattach.mpr ⟨i, url, hi, hread, Or.inr hanswers⟩)

/-- Connecting is the first pass. -/
theorem settled_connect {relays : List String} {client : RelayClient}
    (h : RelayClient.connect (I.pass round) relays = some client) : Settled I round client := by
  intro u hnamed
  by_cases hplay : u ∈ client.relays
  · exact Or.inl hplay
  · refine Or.inr fun i url hi hread => ?_
    rw [(mem_connect (u := u) h).1] at hi
    by_contra hanswers
    exact hplay ((mem_connect h).2.mpr ⟨i, url, hi, hread, Bool.not_eq_false _ |>.mp hanswers⟩)

/-- What is named stays in play through a pass. -/
theorem mem_reattach_of_named {client : RelayClient} {u : String} (hplay : u ∈ client.relays)
    (hnamed : Names I.parseUrl client.configured u) :
    u ∈ (client.reattach (I.pass round)).relays := by
  obtain ⟨url, hurl, hread⟩ := hnamed
  obtain ⟨i, hi⟩ := List.getElem?_of_mem hurl
  exact mem_reattach.mpr ⟨i, url, hi, hread, Or.inl hplay⟩

theorem mem_fresh {client : RelayClient} {u : String} :
    u ∈ I.fresh round client
      ↔ u ∈ (client.reattach (I.pass round)).relays ∧ u ∉ client.relays := by
  rw [Invocation.fresh, List.mem_filter, Bool.not_eq_true', List.contains_eq_mem,
    decide_eq_false_iff_not]

/-- **ROUND**: what a round walks has not been walked, and after it everything in play
    has. -/
theorem between_walk {more : Progress F} (h : Between I round p)
    (hwalk : Walks X I (I.fresh (round + 1) (I.rediscover p).client) {
      I.rediscover p with
      client := (I.rediscover p).client.reattach (I.pass (round + 1))
      lastPass := round + 1
      rounds := round + 1 } more) :
    Between I (round + 1) more := by
  have hplay : ∀ u ∈ p.client.relays,
      u ∈ ((I.rediscover p).client.reattach (I.pass (round + 1))).relays := fun u hu =>
    mem_reattach_of_named hu (h.named u hu)
  have hclient : more.client = (I.rediscover p).client.reattach (I.pass (round + 1)) :=
    hwalk.client
  have hwalked : more.walked = p.walked ++ I.fresh (round + 1) (I.rediscover p).client :=
    hwalk.walked
  exact {
    once := by
      rw [hwalked]
      refine List.Nodup.append h.once (List.Nodup.filter _ (RelayClient.distinct _)) ?_
      intro u hu hfresh
      exact (mem_fresh.mp hfresh).2 ((h.walked u).mp hu)
    walked := by
      intro u
      rw [hwalked, hclient, List.mem_append, mem_fresh, h.walked]
      constructor
      · rintro (hu | ⟨hu, -⟩)
        · exact hplay u hu
        · exact hu
      · intro hu
        by_cases hold : u ∈ p.client.relays
        · exact Or.inl hold
        · exact Or.inr ⟨hu, hold⟩
    named := by
      intro u hu
      rw [hclient, mem_reattach] at hu
      obtain ⟨i, url, hi, hread, -⟩ := hu
      obtain ⟨touches, -, hdb, -⟩ := hwalk.touches
      rw [hdb]
      refine names_later (names_twice ?_)
      exact ⟨url, List.mem_of_getElem? hi, hread⟩
    settled := by
      rw [hclient]
      exact settled_reattach _ }

/-- How the rounds leave a run: once walked is all that is in play, the last pass
    settled what was named, and unless the rounds ran out the set of now names no
    more. -/
structure Discovered (I : Invocation) (p : Progress F) : Prop where
  once : p.walked.Nodup
  walked : ∀ u, u ∈ p.walked ↔ u ∈ p.client.relays
  settled : Settled I p.lastPass p.client
  lastPass : p.lastPass ≤ maxDiscoveryRounds
  rounds : p.rounds ≤ maxDiscoveryRounds
  closed : p.rounds < maxDiscoveryRounds →
    p.client.configured = (connectionSet I.settings I.now p.db).1

theorem configured_rediscover :
    (I.rediscover p).client.configured
      = (connectionSet I.settings I.now (I.rediscover p).db).1 :=
  connectionSet_twice.symm

/-- **THE ROUNDS**, by induction on how many are left. -/
theorem discover_spec (h : Between I round p) (hround : p.rounds = round)
    (hlast : p.lastPass = round) (hleft : round + left = maxDiscoveryRounds)
    (hrun : I.discover X fuel left (round + 1) p = some p') : Discovered I p' := by
  induction left generalizing round p with
  | zero =>
      cases hrun
      exact {
        once := h.once
        walked := h.walked
        settled := by
          rw [hlast]
          exact h.settled
        lastPass := by omega
        rounds := by omega
        closed := by
          intro hlt
          omega }
  | succ left ih =>
      rw [Invocation.discover] at hrun
      dsimp only at hrun
      by_cases hempty : ((I.rediscover p).client.unattached I.parseUrl).isEmpty = true
      · -- Everything named is in play, and so walked.
        rw [if_pos hempty] at hrun
        cases hrun
        exact {
          once := h.once
          walked := h.walked
          settled := by
            refine fun u hnamed => Or.inl ?_
            by_contra hout
            have hmissing : u ∈ (I.rediscover p).client.unattached I.parseUrl :=
              mem_unattached.mpr ⟨hout, hnamed⟩
            rw [List.isEmpty_iff.mp hempty] at hmissing
            exact nomatch hmissing
          lastPass := by
            show p.lastPass ≤ _
            omega
          rounds := by
            show p.rounds ≤ _
            omega
          closed := fun _ => configured_rediscover }
      · rw [if_neg hempty] at hrun
        by_cases hfresh : (I.fresh (round + 1) (I.rediscover p).client).isEmpty = true
        · -- Nobody new answered.
          rw [if_pos hfresh] at hrun
          cases hrun
          exact {
            once := h.once
            walked := by
              intro u
              show u ∈ p.walked ↔ _
              rw [h.walked]
              constructor
              · intro hu
                exact mem_reattach_of_named hu (h.named u hu)
              · intro hu
                by_contra hout
                have hnew := mem_fresh.mpr ⟨hu, hout⟩
                rw [List.isEmpty_iff.mp hfresh] at hnew
                exact nomatch hnew
            settled := settled_reattach _
            lastPass := by
              show round + 1 ≤ _
              omega
            rounds := by
              show p.rounds ≤ _
              omega
            closed := fun _ => configured_rediscover }
        · rw [if_neg hfresh] at hrun
          split at hrun
          · exact nomatch hrun
          · rename_i q hwalk
            have hwalks := walkRelays_spec hwalk
            exact ih (between_walk h hwalks) hwalks.rounds hwalks.lastPass (by omega) hrun

end Rounds

/-! ## Two relays, one named by the other -/

/-- A relay list that names one relay. -/
def relayListOf (id url : String) : Event where
  id := id
  pubkey := Convergence.alice
  createdAt := 1785600000
  kind := relayListKind
  tags := [["r", url]]
  content := ""
  sig := ""

/-- The configured relay holds a list that names another. -/
def twoRelays : Invocation where
  settings := ⟨["wss://a"], true⟩
  policy := ⟨[Convergence.alice], false, []⟩
  authors := []
  listed := [Convergence.alice]
  windowLimit := 500
  parseKey := some
  kinds := [relayListKind]
  range := ⟨1785500000, 1785700000⟩
  now := 1785700000
  parseUrl := some
  dials _ _ _ := true
  answer _ relay _ :=
    History.relay 500 (if relay = "wss://a" then [relayListOf "1" "wss://b"] else [])

/-- The list is signed. -/
def oneList : Externals Int := Externals.over [relayListOf "1" "wss://b"] (by decide) []

theorem twoRelays_run : ∃ p, twoRelays.run oneList 3 Db.empty = some (.walked p)
    ∧ p.walked = ["wss://a", "wss://b"] ∧ p.counts.stored = 1 := by
  have hrun : ((twoRelays.run oneList 3 Db.empty).bind fun finished =>
      match finished with
      | .walked p => some (p.walked, p.counts.stored)
      | .unreachable _ => none) = some (["wss://a", "wss://b"], 1) := by decide +kernel
  obtain ⟨finished, hfinished, hp⟩ := Option.bind_eq_some_iff.mp hrun
  cases finished with
  | unreachable db => exact nomatch hp
  | walked p =>
      obtain ⟨hwalked, hstored⟩ := Prod.mk.inj (Option.some.inj hp)
      exact ⟨p, hfinished, hwalked, hstored⟩

/-! ## A whole run -/

/-- The run is told by its touches: the database they leave, and what they count. -/
structure Told (X : Externals F) (I : Invocation) (db : Db F) (p : Progress F) : Prop where
  left : p.db = touched X I.policy p.touches db
  counted : p.counts = tally X I.policy p.touches db

section Run

variable {I : Invocation} {fuel round left : Nat} {db : Db F} {p p' : Progress F}

theorem Told.walks {relays : List String} (h : Told X I db p) (hwalk : Walks X I relays p p') :
    Told X I db p' := by
  obtain ⟨more, htouches, hdb, hcounts⟩ := hwalk.touches
  exact {
    left := by rw [hdb, h.left, htouches, touched_append]
    counted := by rw [hcounts, h.counted, htouches, tally_append, h.left] }

theorem Told.rediscover (h : Told X I db p) : Told X I db (I.rediscover p) where
  left := by
    show (connectionSet I.settings I.now p.db).2 = touched X I.policy (p.touches ++ [_]) db
    rw [touched_concat, ← h.left]
    rfl
  counted := by
    show p.counts = tally X I.policy (p.touches ++ [_]) db
    rw [tally_append, ← h.counted]
    rfl

theorem told_discover (h : Told X I db p) (hrun : I.discover X fuel left round p = some p') :
    Told X I db p' := by
  induction left generalizing round p with
  | zero =>
      cases hrun
      exact h
  | succ left ih =>
      rw [Invocation.discover] at hrun
      dsimp only at hrun
      have hread := h.rediscover
      split_ifs at hrun
      · cases hrun
        exact hread
      · cases hrun
        exact ⟨hread.left, hread.counted⟩
      · split at hrun
        · exact nomatch hrun
        · rename_i q hwalk
          have hpass : Told X I db {
              I.rediscover p with
              client := (I.rediscover p).client.reattach (I.pass round)
              lastPass := round
              rounds := round } := ⟨hread.left, hread.counted⟩
          exact ih (hpass.walks (walkRelays_spec hwalk)) hrun

/-- The database and the relays a run begins with. -/
theorem run_cases (h : I.run X fuel db = some (.walked p)) :
    ∃ client, RelayClient.connect (I.pass 0) (connectionSet I.settings I.now db).1 = some client
      ∧ I.walkWithDiscovery X fuel ⟨client, (connectionSet I.settings I.now db).2, {},
          [.connect I.settings I.now], [], 0, 0⟩ = some p := by
  rw [Invocation.run] at h
  cases hconnect : RelayClient.connect (I.pass 0) (connectionSet I.settings I.now db).1 with
  | none =>
      rw [hconnect] at h
      exact nomatch h
  | some client =>
      rw [hconnect] at h
      obtain ⟨q, hq, heq⟩ := Option.map_eq_some_iff.mp h
      cases heq
      exact ⟨client, rfl, hq⟩

theorem told_run (h : I.run X fuel db = some (.walked p)) : Told X I db p := by
  obtain ⟨client, -, hwalk⟩ := run_cases h
  rw [Invocation.walkWithDiscovery] at hwalk
  split at hwalk
  · exact nomatch hwalk
  · rename_i q hfirst
    have hbegin : Told X I db ⟨client, (connectionSet I.settings I.now db).2, {},
        [.connect I.settings I.now], [], 0, 0⟩ := ⟨rfl, rfl⟩
    have hq := hbegin.walks (walkRelays_spec hfirst)
    split_ifs at hwalk
    · exact told_discover hq hwalk
    · cases hwalk
      exact hq

theorem between_first {client : RelayClient} {q : Progress F}
    (hconnect : RelayClient.connect (I.pass 0) (connectionSet I.settings I.now db).1 = some client)
    (hwalk : Walks X I client.relays ⟨client, (connectionSet I.settings I.now db).2, {},
      [.connect I.settings I.now], [], 0, 0⟩ q) : Between I 0 q := by
  have hclient : q.client = client := hwalk.client
  have hwalked : q.walked = client.relays := hwalk.walked
  exact {
    once := by
      rw [hwalked]
      exact client.distinct
    walked := by
      intro u
      rw [hwalked, hclient]
    named := by
      intro u hu
      rw [hclient] at hu
      obtain ⟨i, url, hi, hread, -⟩ := (mem_connect hconnect).2.mp hu
      obtain ⟨touches, -, hdb, -⟩ := hwalk.touches
      rw [hdb]
      refine names_later (names_twice ?_)
      exact ⟨url, List.mem_of_getElem? hi, hread⟩
    settled := by
      rw [hclient]
      exact settled_connect hconnect }

/-- Without discovery the set is the configured relays, whatever has been stored. -/
theorem connectionSet_off {S : NostrSettings} {now : Int} (h : S.discoverRelays = false) :
    (connectionSet S now db).1 = S.relays := by
  rw [connectionSet_eq, if_neg (by rw [h]; exact Bool.false_ne_true)]

/-- **A RUN WALKS EVERY RELAY IT FINDS, ONCE.**  However the network answers: no relay
    is walked twice; what the client was last told of is walked, or was refused at
    every place it stands in the last pass; no more than three rounds walk anything;
    and when fewer do, the client was told of every relay the database the run leaves
    behind names. -/
theorem discovery_exact {X : Externals F} {I : Invocation} {fuel : Nat} {db : Db F}
    {p : Progress F} (h : I.run X fuel db = some (.walked p)) :
    p.walked.Nodup
      ∧ (∀ u, Names I.parseUrl p.client.configured u → u ∈ p.walked
        ∨ ∀ i url, p.client.configured[i]? = some url → I.parseUrl url = some u →
            I.dials p.lastPass i u = false)
      ∧ p.rounds ≤ maxDiscoveryRounds
      ∧ (p.rounds < maxDiscoveryRounds →
        p.client.configured = (connectionSet I.settings I.now p.db).1) := by
  have hdone : Discovered I p := by
    obtain ⟨client, hconnect, hwalk⟩ := run_cases h
    rw [Invocation.walkWithDiscovery] at hwalk
    split at hwalk
    · exact nomatch hwalk
    · rename_i q hfirst
      have hwalks := walkRelays_spec hfirst
      have hq := between_first hconnect hwalks
      have hrounds : q.rounds = 0 := hwalks.rounds
      have hlast : q.lastPass = 0 := hwalks.lastPass
      split_ifs at hwalk with hdiscover
      · exact discover_spec hq hrounds hlast rfl hwalk
      · have hoff : I.settings.discoverRelays = false := Bool.not_eq_true _ |>.mp hdiscover
        have hclient : q.client = client := hwalks.client
        rw [← Option.some.inj hwalk]
        exact {
          once := hq.once
          walked := hq.walked
          settled := by
            rw [hlast]
            exact hq.settled
          lastPass := by
            rw [hlast]
            exact Nat.zero_le _
          rounds := by
            rw [hrounds]
            exact Nat.zero_le _
          closed := by
            intro _
            rw [hclient, (mem_connect (u := "") hconnect).1, connectionSet_off hoff,
              connectionSet_off hoff] }
  refine ⟨hdone.once, fun u hnamed => ?_, hdone.rounds, hdone.closed⟩
  rcases hdone.settled u hnamed with hplay | hrefused
  · exact Or.inl ((hdone.walked u).mpr hplay)
  · exact Or.inr hrefused

/-- The second relay is found, dialled and walked, and neither is walked twice. -/
theorem two_relays_walked : ∃ p, twoRelays.run oneList 3 Db.empty = some (.walked p)
    ∧ p.walked = ["wss://a", "wss://b"] ∧ p.walked.Nodup := by
  obtain ⟨p, hrun, hwalked, -⟩ := twoRelays_run
  exact ⟨p, hrun, hwalked, (discovery_exact hrun).1⟩

/-- **WHAT A RUN PRINTS IS ON DISK.**  Whatever the relays send and however many rounds
    there are: every event handed over is counted once, and the events counted as
    stored are exactly the readable ones the archive has gained. -/
theorem counts_on_disk {X : Externals F} {I : Invocation} {fuel : Nat} {db : Db F}
    {p : Progress F} (h : I.run X fuel db = some (.walked p)) :
    total p.counts = handedOver p.touches
      ∧ (readable X everyEvent p.db).size = (readable X everyEvent db).size + p.counts.stored := by
  have htold := told_run h
  rw [htold.counted, htold.left]
  exact ⟨total_tally p.touches db, readable_touched p.touches db⟩

/-- The list is the one event the archive has gained. -/
theorem two_relays_counted : ∃ p, twoRelays.run oneList 3 Db.empty = some (.walked p)
    ∧ (readable oneList everyEvent p.db).size = (readable oneList everyEvent Db.empty).size + 1 := by
  obtain ⟨p, hrun, -, hstored⟩ := twoRelays_run
  exact ⟨p, hrun, by rw [(counts_on_disk hrun).2, hstored]⟩

end Run

/-! ## A run comes to its end -/

section Ends

variable {I : Invocation} {fuel more round left : Nat} {p p' : Progress F}

end Ends

end Dialling
