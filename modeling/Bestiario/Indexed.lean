import Bestiario.Backfill
import Bestiario.Coverage

/-! # What was asked for, and what was answered

    `indexed_kinds` turns an empty table into a fact: a kind that was asked for
    from a floor on, and of which nothing is stored, is a confirmed zero from
    there.  Two commands write it.  `backfill` does so once its walks are done,
    for every kind it was told to walk; `sync` when it makes a filter.

    Neither looks at what a relay said.  A walk that every relay failed, or that
    had nobody to ask about, ends like any other; a filter has not been sent
    when it is recorded.  `State` carries beside the database what the relays
    did answer, and the result says when the rows are no more than that. -/

namespace Indexed

open Keyed Wire Parse Repo Pipeline Derived Sync History

variable {F : Type} {X : Externals F}

/-! ## The requests of a walk -/

/-- The loop of `Backfill::walk` again, keeping what it asked and whether the
    relay answered. -/
def requests (B : Backfill) (kind : UInt16) (range : Range) (now : Int)
    (vouched : List String) (answer : Answer) : Nat → Nat → Int → List (Filter × Bool)
  | 0, _, _ => []
  | fuel + 1, n, until' =>
      if until' > range.from' then
        match resolve (some range.from') (some until') now with
        | .error _ => []
        | .ok window =>
          match forKind kind B.authors vouched (some window) (some B.windowLimit) with
          | none => []
          | some filter =>
            match answer n filter with
            | none => [(filter, false)]
            | some [] => [(filter, true)]
            | some (e :: rest) =>
                (filter, true) :: requests B kind range now vouched answer fuel (n + 1)
                  (nextBound (e :: rest) until')
      else []

/-- The kind a request is for, and how far back it reaches. -/
def reach (filter : Filter) : UInt16 × Int := (filter.kind, (filter.since.getD 0 : Nat))

/-- The requests a walk of `db` got an answer to. -/
def answered (B : Backfill) (kind : UInt16) (range : Range) (now : Int) (answer : Answer)
    (fuel : Nat) (db : Db F) : List (UInt16 × Int) :=
  ((requests B kind range now (B.vouched db) answer fuel 0 range.until').filter
    Prod.snd).map fun asked => reach asked.1

/-! ## The two commands -/

/-- One `backfill`: whom it asks about, what for, and how each relay answers the
    walk of each kind.  The relays its discovery rounds add stand at the end. -/
structure Run where
  policy : Policy
  authors : List String
  listed : List String
  windowLimit : Nat
  parseKey : String → Option String
  kinds : List UInt16
  range : Range
  now : Int
  resolves : resolve (some range.from') (some range.until') now = .ok range
  relays : List (String × (UInt16 → Answer))

namespace Run

/-- The walk of one relay. -/
def walker (R : Run) (url : String) : Backfill :=
  ⟨url, R.authors, R.listed, R.windowLimit, R.parseKey⟩

/-- `walk_relays`: every relay, and on each every kind. -/
def walks (R : Run) : List (String × UInt16 × Answer) :=
  R.relays.flatMap fun relay => R.kinds.map fun kind => (relay.1, kind, relay.2 kind)

/-- The walks one after another; `none` when one of them does not end. -/
def go (X : Externals F) (R : Run) (fuel : Nat) :
    List (String × UInt16 × Answer) → Db F → Option (Db F × List (UInt16 × Int))
  | [], db => some (db, [])
  | (url, kind, answer) :: rest, db =>
      match (R.walker url).walk X R.policy kind R.range R.now answer db fuel with
      | none => none
      | some walked =>
          match R.go X fuel rest walked.db with
          | none => none
          | some (db', later) =>
              some (db', Indexed.answered (R.walker url) kind R.range R.now answer fuel db
                ++ later)

/-- What `run` records when the walks are done. -/
def record (R : Run) (db : Db F) : Db F :=
  R.kinds.foldl (fun db kind => IndexedKinds.record kind R.range.from' R.now db) db

/-- The request a walk of `db` begins with, if there is one to make. -/
def firstRequest (R : Run) (url : String) (kind : UInt16) (db : Db F) : Option Filter :=
  forKind kind R.authors ((R.walker url).vouched db) (some R.range) (some R.windowLimit)

/-- Some walk of the kind has a request to make, and the relay answers it. -/
def Heard (X : Externals F) (R : Run) (fuel : Nat) (kind : UInt16) :
    List (String × UInt16 × Answer) → Db F → Prop
  | [], _ => False
  | (url, walked, answer) :: rest, db =>
      (walked = kind ∧ ∃ filter, R.firstRequest url kind db = some filter
        ∧ answer 0 filter ≠ none)
      ∨ ∃ w, (R.walker url).walk X R.policy walked R.range R.now answer db fuel = some w
        ∧ R.Heard X fuel kind rest w.db

end Run

/-- The database, and what any relay has answered so far. -/
structure State (F : Type) where
  db : Db F
  answered : List (UInt16 × Int)

/-- A database never written to, before anything was asked. -/
def State.empty : State F := ⟨Db.empty, []⟩

/-- What can happen: a `backfill`, a filter made for a subscription, and outside
    of either an event delivered or a request answered. -/
inductive Step where
  | backfill (R : Run) (fuel : Nat)
  | subscribe (S : Follower) (kind : UInt16) (now : Int)
  | ingest (P : Policy) (call : Call)
  | answer (filter : Filter)

/-- A `backfill` cut short records nothing; what it did until then is steps of
    its own. -/
def Step.apply (X : Externals F) (step : Step) (s : State F) : State F :=
  match step with
  | .backfill R fuel =>
      match R.go X fuel R.walks s.db with
      | none => s
      | some (db, later) => ⟨R.record db, s.answered ++ later⟩
  | .subscribe S kind now => { s with db := (S.filter kind now s.db).2 }
  | .ingest P call => { s with db := (Pipeline.ingest X P call s.db).2 }
  | .answer filter => { s with answered := s.answered ++ [reach filter] }

/-- The state after steps one after another. -/
def after (X : Externals F) (steps : List Step) : State F :=
  steps.foldl (fun s step => step.apply X s) State.empty

/-! ## What the rows are to say -/

/-- A request for the kind that reaches back to `floor` was answered. -/
def Confirmed (answers : List (UInt16 × Int)) (kind : UInt16) (floor : Int) : Prop :=
  ∃ since, (kind, since) ∈ answers ∧ since ≤ floor

/-- Every row says what some relay answered for. -/
def Honest (s : State F) : Prop :=
  ∀ kind floor, IndexedKinds.indexedFrom kind s.db = some floor →
    Confirmed s.answered kind floor

/-- The condition on a step: whatever it records was answered, before it or by it. -/
def Meets (X : Externals F) (s : State F) : Step → Prop
  | .backfill R fuel => R.go X fuel R.walks s.db ≠ none → ∀ kind ∈ R.kinds,
      Confirmed s.answered kind (max R.range.from' 0) ∨ R.Heard X fuel kind R.walks s.db
  | .subscribe S kind _ => S.request kind s.db ≠ none →
      Confirmed s.answered kind (max ((resumeFrom (S.cursor kind s.db) S.overlap).getD 0) 0)
  | .ingest _ _ => True
  | .answer _ => True

/-! ## A walk's requests -/

section Walk

variable (B : Backfill) (kind : UInt16) (range : Range) (now : Int) (vouched : List String)
  (answer : Answer)

/-- Every request of a walk is for its kind, from its floor on. -/
theorem reach_of_mem_requests {fuel n : Nat} {until' : Int} {asked : Filter × Bool}
    (h : asked ∈ requests B kind range now vouched answer fuel n until') :
    reach asked.1 = (kind, max range.from' 0) := by
  induction fuel generalizing n until' with
  | zero => exact nomatch h
  | succ fuel ih =>
      rw [requests] at h
      split_ifs at h with hopen
      · split at h
        · exact nomatch h
        · rename_i w hresolve
          have hfrom : w.from' = range.from' := by
            rw [resolve] at hresolve
            split_ifs at hresolve
            cases hresolve
            rfl
          split at h
          · exact nomatch h
          · rename_i filter hfilter
            have hreach : reach filter = (kind, max range.from' 0) := by
              obtain ⟨identifier, authors, rfl, -⟩ := of_forKind hfilter
              rw [reach, window, hfrom]
              by_cases hpos : range.from' > 0
              · simp only [if_pos hpos, Option.getD_some, Prod.mk.injEq, true_and]
                omega
              · simp only [if_neg hpos, Option.getD_none, Prod.mk.injEq, true_and]
                omega
            split at h
            · rw [List.mem_singleton.mp h]
              exact hreach
            · rw [List.mem_singleton.mp h]
              exact hreach
            · rcases List.mem_cons.mp h with rfl | hlater
              · exact hreach
              · exact ih hlater
      · exact nomatch h

/-- A walk gets an answer exactly when its first request does. -/
theorem exists_answered_iff
    (hresolves : resolve (some range.from') (some range.until') now = .ok range) (fuel : Nat) :
    (∃ asked ∈ requests B kind range now vouched answer (fuel + 1) 0 range.until',
        asked.2 = true)
      ↔ ∃ filter, forKind kind B.authors vouched (some range) (some B.windowLimit) = some filter
          ∧ answer 0 filter ≠ none := by
  rw [requests, if_pos (of_resolve hresolves).1, hresolves]
  dsimp only
  cases hfilter : forKind kind B.authors vouched (some range) (some B.windowLimit) with
  | none => simp
  | some filter =>
      simp only [Option.some.injEq, exists_eq_left']
      cases hanswer : answer 0 filter with
      | none => simp
      | some page =>
          cases page with
          | nil => simp
          | cons e rest => simp

end Walk

/-- Every answer a walk got is for its kind, from its floor on. -/
theorem mem_answered {B : Backfill} {kind : UInt16} {range : Range} {now : Int}
    {answer : Answer} {fuel : Nat} {db : Db F} {told : UInt16 × Int}
    (h : told ∈ answered B kind range now answer fuel db) :
    told = (kind, max range.from' 0) := by
  obtain ⟨asked, hmem, rfl⟩ := List.mem_map.mp h
  exact reach_of_mem_requests B kind range now _ answer (List.mem_of_mem_filter hmem)

/-- A walk that ended was answered exactly when its first request was. -/
theorem answered_iff {R : Run} {url : String} {kind : UInt16} {answer : Answer} {db : Db F}
    {fuel : Nat} (hfuel : fuel ≠ 0) :
    (kind, max R.range.from' 0) ∈ answered (R.walker url) kind R.range R.now answer fuel db
      ↔ ∃ filter, R.firstRequest url kind db = some filter ∧ answer 0 filter ≠ none := by
  obtain ⟨fuel, rfl⟩ := Nat.exists_eq_succ_of_ne_zero hfuel
  rw [Run.firstRequest]
  refine Iff.trans ?_ (exists_answered_iff (R.walker url) kind R.range R.now
    ((R.walker url).vouched db) answer R.resolves fuel)
  rw [answered, List.mem_map]
  constructor
  · rintro ⟨asked, hmem, -⟩
    exact ⟨asked, List.mem_of_mem_filter hmem, (List.mem_filter.mp hmem).2⟩
  · rintro ⟨asked, hmem, hanswered⟩
    exact ⟨asked, List.mem_filter.mpr ⟨hmem, hanswered⟩,
      reach_of_mem_requests _ kind R.range R.now _ answer hmem⟩

/-! ## What the walks leave of the floors -/

theorem ingestWindow_indexedKinds (P : Policy) (B : Backfill) (now : Int)
    (events : List Event) (db : Db F) :
    (B.ingestWindow X P now events db).2.indexedKinds = db.indexedKinds := by
  rw [Backfill.ingestWindow]
  generalize ({} : Counts) = counts
  generalize events.reverse = delivered
  induction delivered generalizing counts db with
  | nil => rfl
  | cons e rest ih =>
      rw [List.foldl_cons, ih]
      exact Coverage.ingest_indexedKinds P ⟨e, B.relayUrl, now⟩ db

theorem loop_indexedKinds (P : Policy) (B : Backfill) (kind : UInt16) (range : Range)
    (now : Int) (vouched : List String) (answer : Answer) {fuel n : Nat} {until' : Int}
    {w w' : Walked F}
    (h : B.loop X P kind range now vouched answer fuel n until' w = some w') :
    w'.db.indexedKinds = w.db.indexedKinds := by
  induction fuel generalizing n until' w with
  | zero => exact nomatch h
  | succ fuel ih =>
      rw [loop_succ] at h
      cases hasked : B.asked kind range now vouched answer n until' with
      | none =>
          rw [hasked] at h
          rw [← Option.some.inj h]
      | some page =>
          rw [hasked] at h
          rw [ih h]
          exact ingestWindow_indexedKinds P B now page w.db

theorem walk_indexedKinds {P : Policy} {B : Backfill} {kind : UInt16} {range : Range}
    {now : Int} {answer : Answer} {db : Db F} {fuel : Nat} {w : Walked F}
    (h : B.walk X P kind range now answer db fuel = some w) :
    w.db.indexedKinds = db.indexedKinds :=
  loop_indexedKinds P B kind range now _ answer h

/-- A walk that ended looked at its bound at least once. -/
theorem fuel_of_walk {P : Policy} {B : Backfill} {kind : UInt16} {range : Range}
    {now : Int} {answer : Answer} {db : Db F} {fuel : Nat} {w : Walked F}
    (h : B.walk X P kind range now answer db fuel = some w) : fuel ≠ 0 := by
  rintro rfl
  exact nomatch h

/-- **THE WALKS**: no floor moves, every answer reaches to the range's floor, and a
    kind is answered exactly when one of its walks is heard. -/
theorem go_spec {R : Run} {fuel : Nat} {walks : List (String × UInt16 × Answer)}
    {db db' : Db F} {later : List (UInt16 × Int)}
    (h : R.go X fuel walks db = some (db', later)) :
    db'.indexedKinds = db.indexedKinds
      ∧ (∀ told ∈ later, told.2 = max R.range.from' 0)
      ∧ ∀ kind, (kind, max R.range.from' 0) ∈ later ↔ R.Heard X fuel kind walks db := by
  induction walks generalizing db later with
  | nil =>
      cases h
      exact ⟨rfl, fun told hmem => (nomatch hmem), fun kind => by simp [Run.Heard]⟩
  | cons walk rest ih =>
      obtain ⟨url, walked, answer⟩ := walk
      rw [Run.go] at h
      split at h
      · exact nomatch h
      · rename_i w hwalk
        split at h
        · exact nomatch h
        · rename_i final after hrest
          cases h
          obtain ⟨hkept, hreach, hheard⟩ := ih hrest
          refine ⟨hkept.trans (walk_indexedKinds hwalk), fun told hmem => ?_, fun kind => ?_⟩
          · rcases List.mem_append.mp hmem with hnow | hlater
            · rw [mem_answered hnow]
            · exact hreach told hlater
          · rw [List.mem_append, hheard, Run.Heard]
            refine or_congr ?_ ?_
            · constructor
              · intro hnow
                have hkind : kind = walked := congrArg Prod.fst (mem_answered hnow)
                subst hkind
                exact ⟨rfl, (answered_iff (fuel_of_walk hwalk)).mp hnow⟩
              · rintro ⟨rfl, hfirst⟩
                exact (answered_iff (fuel_of_walk hwalk)).mpr hfirst
            · constructor
              · intro hlater
                exact ⟨w, hwalk, hlater⟩
              · rintro ⟨w', hwalk', hlater⟩
                rw [hwalk] at hwalk'
                cases hwalk'
                exact hlater

/-! ## What recording adds -/

theorem Confirmed.append {answers : List (UInt16 × Int)} {kind : UInt16} {floor : Int}
    (h : Confirmed answers kind floor) (later : List (UInt16 × Int)) :
    Confirmed (answers ++ later) kind floor := by
  obtain ⟨since, hmem, hle⟩ := h
  exact ⟨since, List.mem_append_left later hmem, hle⟩

/-- The kinds recorded with one floor, all at once. -/
theorem indexedFrom_recorded (kinds : List UInt16) (from' now : Int) (kind : UInt16)
    (db : Db F) :
    IndexedKinds.indexedFrom kind
        (kinds.foldl (fun db kind => IndexedKinds.record kind from' now db) db)
      = if kind ∈ kinds then some (lowered (IndexedKinds.indexedFrom kind db) (max from' 0))
        else IndexedKinds.indexedFrom kind db := by
  induction kinds generalizing db with
  | nil => rfl
  | cons recorded rest ih =>
      rw [List.foldl_cons, ih, Coverage.indexedFrom_record]
      by_cases hkind : recorded = kind
      · subst hkind
        rw [if_pos rfl, if_pos List.mem_cons_self]
        cases IndexedKinds.indexedFrom recorded db with
        | none => simp [lowered]
        | some old => simp [lowered]
      · have hother : kind ∈ recorded :: rest ↔ kind ∈ rest := by
          rw [List.mem_cons]
          exact or_iff_right fun h => hkind h.symm
        rw [if_neg hkind]
        simp only [hother]

/-- **RECORDING IS HONEST EXACTLY WHEN WHAT IT RECORDS WAS ANSWERED**: the rows
    there were before are, and moving one back needs an answer that deep. -/
theorem honest_recorded_iff {s : State F} {db : Db F} {answers : List (UInt16 × Int)}
    {kinds : List UInt16} {floor : Int} (h : Honest s)
    (hkept : ∀ kind f, Confirmed s.answered kind f → Confirmed answers kind f)
    (hfloors : ∀ kind, IndexedKinds.indexedFrom kind db
      = if kind ∈ kinds then some (lowered (IndexedKinds.indexedFrom kind s.db) floor)
        else IndexedKinds.indexedFrom kind s.db) :
    Honest ⟨db, answers⟩ ↔ ∀ kind ∈ kinds, Confirmed answers kind floor := by
  constructor
  · intro hafter kind hmem
    have hrow := hfloors kind
    rw [if_pos hmem] at hrow
    obtain ⟨since, htold, hle⟩ := hafter kind _ hrow
    refine ⟨since, htold, hle.trans ?_⟩
    cases IndexedKinds.indexedFrom kind s.db with
    | none => exact le_refl floor
    | some old => exact min_le_right old floor
  · intro hanswered kind f hrow
    replace hrow : IndexedKinds.indexedFrom kind db = some f := hrow
    rw [hfloors kind] at hrow
    by_cases hmem : kind ∈ kinds
    · rw [if_pos hmem] at hrow
      cases hold : IndexedKinds.indexedFrom kind s.db with
      | none =>
          rw [hold] at hrow
          cases hrow
          exact hanswered kind hmem
      | some old =>
          rw [hold] at hrow
          cases hrow
          rcases min_choice old floor with hmin | hmin
          · rw [lowered, hmin]
            exact hkept kind old (h kind old hold)
          · rw [lowered, hmin]
            exact hanswered kind hmem
    · rw [if_neg hmem] at hrow
      exact hkept kind f (h kind f hrow)

/-! ## One step -/

theorem honest_empty : Honest (State.empty : State F) :=
  fun _ _ h => nomatch h

/-- **STEP**: an honest state stays honest exactly when the step meets its condition. -/
theorem honest_apply_iff {s : State F} (h : Honest s) (step : Step) :
    Honest (step.apply X s) ↔ Meets X s step := by
  cases step with
  | backfill R fuel =>
      rw [Step.apply, Meets]
      cases hgo : R.go X fuel R.walks s.db with
      | none => exact iff_of_true h fun hends => absurd rfl hends
      | some walked =>
          obtain ⟨db, later⟩ := walked
          obtain ⟨hkept, hreach, hheard⟩ := go_spec hgo
          have hfloors : ∀ kind, IndexedKinds.indexedFrom kind (R.record db)
              = if kind ∈ R.kinds then
                  some (lowered (IndexedKinds.indexedFrom kind s.db) (max R.range.from' 0))
                else IndexedKinds.indexedFrom kind s.db := by
            intro kind
            have hsame : IndexedKinds.indexedFrom kind db
                = IndexedKinds.indexedFrom kind s.db := by
              rw [IndexedKinds.indexedFrom, IndexedKinds.indexedFrom, hkept]
            rw [Run.record, indexedFrom_recorded, hsame]
          refine (honest_recorded_iff h (fun kind f hf => hf.append later) hfloors).trans ?_
          -- Every answer of this run is from the floor it records.
          have hone : ∀ kind, Confirmed (s.answered ++ later) kind (max R.range.from' 0)
              ↔ Confirmed s.answered kind (max R.range.from' 0)
                ∨ R.Heard X fuel kind R.walks s.db := by
            intro kind
            rw [← hheard kind]
            constructor
            · rintro ⟨since, hmem, hle⟩
              rcases List.mem_append.mp hmem with hbefore | hnow
              · exact .inl ⟨since, hbefore, hle⟩
              · have hsince : since = max R.range.from' 0 := hreach _ hnow
                rw [hsince] at hnow
                exact .inr hnow
            · rintro (hbefore | hnow)
              · exact hbefore.append later
              · exact ⟨_, List.mem_append_right s.answered hnow, le_refl _⟩
          constructor
          · intro hall _ kind hmem
            exact (hone kind).mp (hall kind hmem)
          · intro hall kind hmem
            exact (hone kind).mpr (hall (Option.some_ne_none _) kind hmem)
  | subscribe S kind now =>
      rw [Step.apply, Meets, Follower.filter]
      cases hrequest : S.request kind s.db with
      | none => exact iff_of_true h fun hmade => absurd rfl hmade
      | some filter =>
          have hfloors : ∀ asked, IndexedKinds.indexedFrom asked (IndexedKinds.record kind
                ((resumeFrom (S.cursor kind s.db) S.overlap).getD 0) now s.db)
              = if asked ∈ [kind] then
                  some (lowered (IndexedKinds.indexedFrom asked s.db)
                    (max ((resumeFrom (S.cursor kind s.db) S.overlap).getD 0) 0))
                else IndexedKinds.indexedFrom asked s.db :=
            fun asked => indexedFrom_recorded [kind] _ now asked s.db
          refine (honest_recorded_iff h (fun kind f hf => hf) hfloors).trans ?_
          constructor
          · intro hall _
            exact hall kind (List.mem_singleton_self kind)
          · intro hone asked hmem
            rw [List.mem_singleton.mp hmem]
            exact hone (Option.some_ne_none _)
  | ingest P call =>
      refine iff_of_true (fun kind floor hrow => h kind floor ?_) trivial
      rw [← hrow, IndexedKinds.indexedFrom, IndexedKinds.indexedFrom]
      exact congrArg (fun t => (t[kind]?).map _) (Coverage.ingest_indexedKinds P call s.db).symm
  | answer asked =>
      exact iff_of_true (fun kind floor hrow => (h kind floor hrow).append _) trivial

/-! ## Any run -/

theorem after_concat (steps : List Step) (step : Step) :
    after X (steps ++ [step]) = step.apply X (after X steps) := by
  rw [after, List.foldl_append]
  rfl

/-- **THE ROWS ARE ANSWERS EXACTLY WHEN EVERY STEP ASKED AND WAS HEARD.**  After
    each of any steps, every row stands for a request that reached as far back
    and was answered, iff each backfill that ran to its end heard of every kind
    it records, and no filter was made for a kind nobody had answered for yet. -/
theorem rows_answered_iff (X : Externals F) (steps : List Step) :
    (∀ before rest, steps = before ++ rest → Honest (after X before))
      ↔ ∀ before step rest, steps = before ++ step :: rest →
        Meets X (after X before) step := by
  constructor
  · intro h before step rest heq
    have hnow : Honest (after X before) := h before (step :: rest) heq
    have hnext : Honest (after X (before ++ [step])) :=
      h (before ++ [step]) rest (by rw [heq, List.append_assoc, List.singleton_append])
    rw [after_concat] at hnext
    exact (honest_apply_iff hnow step).mp hnext
  · intro h before
    induction before using List.reverseRecOn with
    | nil => exact fun _ _ => honest_empty
    | append_singleton before step ih =>
        intro rest heq
        have hsplit : steps = before ++ step :: rest := by
          rw [heq, List.append_assoc, List.singleton_append]
        rw [after_concat]
        exact (honest_apply_iff (ih (step :: rest) hsplit) step).mpr
          (h before step rest hsplit)

/-! ## A kind nobody was asked for -/

/-- `backfill --kind 10002` of one relay, into an empty database, with no instance
    listed: there is nobody to ask about. -/
def relayLists : Run where
  policy := Convergence.openPolicy
  authors := []
  listed := []
  windowLimit := 500
  parseKey := some
  kinds := [relayListKind]
  range := ⟨1735689600, 1785600000⟩
  now := 1785600000
  resolves := by decide
  relays := [("wss://a", fun _ _ _ => some [])]

/-- **NOBODY WAS ASKED AND A ROW SAYS SO OTHERWISE**: the relay answers whatever it
    is sent, and is sent nothing. -/
theorem nobody_asked_is_recorded :
    (after Convergence.trade [.backfill relayLists 1]).answered = [] ∧
      IndexedKinds.indexedFrom relayListKind
        (after Convergence.trade [.backfill relayLists 1]).db = some 1735689600 ∧
      ¬ Honest (after Convergence.trade [.backfill relayLists 1]) := by
  have hasked : (after Convergence.trade [.backfill relayLists 1]).answered = [] := by
    decide +kernel
  have hrow : IndexedKinds.indexedFrom relayListKind
      (after Convergence.trade [.backfill relayLists 1]).db = some 1735689600 := by
    decide +kernel
  refine ⟨hasked, hrow, fun h => ?_⟩
  obtain ⟨since, hmem, -⟩ := h relayListKind 1735689600 hrow
  rw [hasked] at hmem
  exact nomatch hmem

end Indexed
