import Bestiario.Lib.Gather
import Mathlib.Tactic

/-! # The relays a run dials

    The connection side of `nostr/client.rs`.  A client is told of a list of URLs
    and keeps the relays that parse and answer, each once and in the order it was
    told of them; `reattach` tries again what is not in play.

    The network is whatever answers: in one pass over the list the relay at each
    place answers or does not, and the next pass may find it otherwise. -/

namespace Dialling

open Gather

/-! ## The client -/

/-- Whom a pass reaches: how a URL reads, and whether the relay at a place of the
    list answers. -/
structure Pass where
  /-- `RelayUrl::from_str`, as the value it compares by. -/
  parseUrl : String → Option String
  answers : Nat → String → Bool

/-- `RelayClient::add`: the URL read, and the relay dialled. -/
def Pass.add (N : Pass) (i : Nat) (url : String) : Option String :=
  match N.parseUrl url with
  | none => none
  | some parsed => if N.answers i parsed then some parsed else none

/-- The loop of `connect`. -/
def connectFrom (N : Pass) : Nat → List String → List String → List String
  | _, [], connected => connected
  | i, url :: rest, connected =>
      match N.add i url with
      | some parsed =>
          if connected.contains parsed then connectFrom N (i + 1) rest connected
          else connectFrom N (i + 1) rest (connected ++ [parsed])
      | none => connectFrom N (i + 1) rest connected

/-- The loop of `reattach`, with what it dialled on the way. -/
def reattachFrom (N : Pass) (held : List String) :
    Nat → List String → List String → List String → List String × List String
  | _, [], attached, dialled => (attached, dialled)
  | i, url :: rest, attached, dialled =>
      match N.parseUrl url with
      | none => reattachFrom N held (i + 1) rest attached dialled
      | some parsed =>
          if attached.contains parsed then reattachFrom N held (i + 1) rest attached dialled
          else if held.contains parsed then
            reattachFrom N held (i + 1) rest (attached ++ [parsed]) dialled
          else
            match N.add i url with
            | some added =>
                reattachFrom N held (i + 1) rest (attached ++ [added]) (dialled ++ [parsed])
            | none => reattachFrom N held (i + 1) rest attached (dialled ++ [parsed])

/-- The loop of `unattached`. -/
def unattachedFrom (parseUrl : String → Option String) (held : List String) :
    List String → List String → List String
  | [], missing => missing
  | url :: rest, missing =>
      match parseUrl url with
      | none => unattachedFrom parseUrl held rest missing
      | some parsed =>
          if !held.contains parsed && !missing.contains parsed then
            unattachedFrom parseUrl held rest (missing ++ [parsed])
          else unattachedFrom parseUrl held rest missing

section Loops

variable {N : Pass} {held : List String}

/-- What a pass of `reattach` ends with at a place: the relay held, or answering. -/
def Pass.offer (N : Pass) (held : List String) (i : Nat) (url : String) : Option String :=
  match N.parseUrl url with
  | none => none
  | some parsed => if held.contains parsed || N.answers i parsed then some parsed else none

theorem add_eq_some {i : Nat} {url parsed : String} :
    N.add i url = some parsed ↔ N.parseUrl url = some parsed ∧ N.answers i parsed = true := by
  rw [Pass.add]
  cases N.parseUrl url with
  | none => simp
  | some read =>
      dsimp only
      by_cases hanswers : N.answers i read = true
      · rw [if_pos hanswers, Option.some.injEq]
        constructor
        · rintro rfl
          exact ⟨rfl, hanswers⟩
        · exact And.left
      · rw [if_neg hanswers, Option.some.injEq]
        constructor
        · intro h
          exact nomatch h
        · rintro ⟨rfl, h⟩
          exact absurd h hanswers

theorem offer_eq_some {i : Nat} {url parsed : String} :
    N.offer held i url = some parsed
      ↔ N.parseUrl url = some parsed ∧ (parsed ∈ held ∨ N.answers i parsed = true) := by
  rw [Pass.offer]
  cases N.parseUrl url with
  | none => simp
  | some read =>
      dsimp only
      by_cases hoffer : (held.contains read || N.answers i read) = true
      · rw [if_pos hoffer, Option.some.injEq]
        rw [Bool.or_eq_true, List.contains_iff_mem] at hoffer
        constructor
        · rintro rfl
          exact ⟨rfl, hoffer⟩
        · exact And.left
      · rw [if_neg hoffer, Option.some.injEq]
        rw [Bool.or_eq_true, List.contains_iff_mem] at hoffer
        constructor
        · intro h
          exact nomatch h
        · rintro ⟨rfl, h⟩
          exact absurd h hoffer

theorem contains_keep (kept : List String) (b : String) :
    keep kept b = if kept.contains b then kept else kept ++ [b] := by
  rw [keep]
  by_cases hb : b ∈ kept
  · rw [if_pos hb, if_pos (List.contains_iff_mem.mpr hb)]
  · rw [if_neg hb, if_neg fun h => hb (List.contains_iff_mem.mp h)]

theorem connectFrom_eq (i : Nat) (urls connected : List String) :
    connectFrom N i urls connected = gather N.add i urls connected := by
  induction urls generalizing i connected with
  | nil => rfl
  | cons url rest ih =>
      rw [connectFrom, gather]
      cases N.add i url with
      | none => exact ih (i + 1) connected
      | some parsed =>
          dsimp only
          rw [contains_keep]
          by_cases hc : connected.contains parsed = true
          · rw [if_pos hc, if_pos hc]
            exact ih (i + 1) connected
          · rw [if_neg hc, if_neg hc]
            exact ih (i + 1) (connected ++ [parsed])

theorem reattachFrom_eq (i : Nat) (urls attached dialled : List String) :
    (reattachFrom N held i urls attached dialled).1
      = gather (N.offer held) i urls attached := by
  induction urls generalizing i attached dialled with
  | nil => rfl
  | cons url rest ih =>
      rw [reattachFrom, gather, Pass.add, Pass.offer]
      cases N.parseUrl url with
      | none => exact ih (i + 1) attached dialled
      | some parsed =>
          dsimp only
          by_cases hc : attached.contains parsed = true
          · -- Kept already: whatever is offered here adds nothing.
            rw [if_pos hc, ih]
            by_cases hoffer : (held.contains parsed || N.answers i parsed) = true
            · rw [if_pos hoffer]
              dsimp only
              rw [contains_keep, if_pos hc]
            · rw [if_neg hoffer]
          · rw [if_neg hc]
            by_cases hheld : held.contains parsed = true
            · rw [if_pos hheld, hheld, Bool.true_or, if_pos rfl]
              dsimp only
              rw [contains_keep, if_neg hc]
              exact ih (i + 1) (attached ++ [parsed]) dialled
            · rw [if_neg hheld, Bool.not_eq_true _ |>.mp hheld, Bool.false_or]
              by_cases hanswers : N.answers i parsed = true
              · rw [if_pos hanswers]
                dsimp only
                rw [contains_keep, if_neg hc]
                exact ih (i + 1) (attached ++ [parsed]) (dialled ++ [parsed])
              · rw [if_neg hanswers]
                exact ih (i + 1) attached (dialled ++ [parsed])

/-- Nothing held is dialled, and nothing that is not on the list. -/
theorem of_mem_dialled {i : Nat} {urls attached dialled : List String} {parsed : String}
    (h : parsed ∈ (reattachFrom N held i urls attached dialled).2) :
    parsed ∈ dialled ∨ parsed ∉ held ∧ ∃ url ∈ urls, N.parseUrl url = some parsed := by
  induction urls generalizing i attached dialled with
  | nil => exact Or.inl h
  | cons url rest ih =>
      have hlater : ∀ {attached dialled : List String},
          parsed ∈ (reattachFrom N held (i + 1) rest attached dialled).2 →
          parsed ∈ dialled ∨ parsed ∉ held ∧ ∃ u ∈ url :: rest, N.parseUrl u = some parsed := by
        intro attached dialled hmem
        rcases ih hmem with hin | ⟨hnot, u, hu, hread⟩
        · exact Or.inl hin
        · exact Or.inr ⟨hnot, u, List.mem_cons_of_mem _ hu, hread⟩
      rw [reattachFrom] at h
      cases hread : N.parseUrl url with
      | none =>
          rw [hread] at h
          exact hlater h
      | some read =>
          rw [hread] at h
          dsimp only at h
          by_cases hc : attached.contains read = true
          · rw [if_pos hc] at h
            exact hlater h
          · rw [if_neg hc] at h
            by_cases hheld : held.contains read = true
            · rw [if_pos hheld] at h
              exact hlater h
            · rw [if_neg hheld] at h
              have hdialled : parsed ∈ dialled ++ [read] ∨
                  parsed ∉ held ∧ ∃ u ∈ url :: rest, N.parseUrl u = some parsed := by
                cases hadd : N.add i url with
                | none =>
                    rw [hadd] at h
                    exact hlater h
                | some added =>
                    rw [hadd] at h
                    exact hlater h
              rcases hdialled with hmem | hright
              · rcases List.mem_append.mp hmem with hin | hlast
                · exact Or.inl hin
                · rw [List.mem_singleton] at hlast
                  subst hlast
                  exact Or.inr ⟨fun hm => hheld (List.contains_iff_mem.mpr hm), url,
                    List.mem_cons_self, hread⟩
              · exact Or.inr hright

theorem mem_unattachedFrom {parseUrl : String → Option String} {urls missing : List String}
    {parsed : String} :
    parsed ∈ unattachedFrom parseUrl held urls missing
      ↔ parsed ∈ missing ∨ parsed ∉ held ∧ ∃ url ∈ urls, parseUrl url = some parsed := by
  induction urls generalizing missing with
  | nil => simp [unattachedFrom]
  | cons url rest ih =>
      rw [unattachedFrom]
      cases hread : parseUrl url with
      | none =>
          dsimp only
          rw [ih, List.exists_mem_cons_iff, hread]
          simp
      | some read =>
          dsimp only
          rw [List.exists_mem_cons_iff, hread, Option.some.injEq]
          by_cases hnew : (!held.contains read && !missing.contains read) = true
          · rw [if_pos hnew, ih, List.mem_append, List.mem_singleton]
            simp only [Bool.and_eq_true, Bool.not_eq_true', List.contains_eq_mem,
              decide_eq_false_iff_not] at hnew
            constructor
            · rintro ((hin | rfl) | ⟨hnot, hrest⟩)
              · exact Or.inl hin
              · exact Or.inr ⟨hnew.1, Or.inl rfl⟩
              · exact Or.inr ⟨hnot, Or.inr hrest⟩
            · rintro (hin | ⟨hnot, rfl | hrest⟩)
              · exact Or.inl (Or.inl hin)
              · exact Or.inl (Or.inr rfl)
              · exact Or.inr ⟨hnot, hrest⟩
          · rw [if_neg hnew, ih]
            simp only [Bool.and_eq_true, Bool.not_eq_true', List.contains_eq_mem,
              decide_eq_false_iff_not, not_and_or, not_not] at hnew
            constructor
            · rintro (hin | ⟨hnot, hrest⟩)
              · exact Or.inl hin
              · exact Or.inr ⟨hnot, Or.inr hrest⟩
            · rintro (hin | ⟨hnot, rfl | hrest⟩)
              · exact Or.inl hin
              · rcases hnew with hheld | hmissing
                · exact absurd hheld hnot
                · exact Or.inl hmissing
              · exact Or.inr ⟨hnot, hrest⟩

end Loops

/-- `RelayClient`: what it was told about, and which of it answered.  No relay
    stands in it twice. -/
structure RelayClient where
  configured : List String
  relays : List String
  distinct : relays.Nodup

namespace RelayClient

/-- `connect`; `none` when nothing is left. -/
def connect (N : Pass) (relays : List String) : Option RelayClient :=
  let connected := connectFrom N 0 relays []
  if connected.isEmpty then none
  else some {
    configured := relays
    relays := connectFrom N 0 relays []
    distinct := by
      rw [connectFrom_eq]
      exact nodup_gather List.nodup_nil }

/-- `reconfigure`: nothing is dialled here. -/
def reconfigure (client : RelayClient) (relays : List String) : RelayClient :=
  { client with configured := relays }

/-- `reattach`. -/
def reattach (client : RelayClient) (N : Pass) : RelayClient where
  configured := client.configured
  relays := (reattachFrom N client.relays 0 client.configured [] []).1
  distinct := by
    rw [reattachFrom_eq]
    exact nodup_gather List.nodup_nil

/-- The relays `reattach` dials. -/
def dialled (client : RelayClient) (N : Pass) : List String :=
  (reattachFrom N client.relays 0 client.configured [] []).2

/-- `unattached`: named but not in play. -/
def unattached (client : RelayClient) (parseUrl : String → Option String) : List String :=
  unattachedFrom parseUrl client.relays client.configured []

end RelayClient

section Client

variable {client : RelayClient} {N : Pass} {u : String}

/-- One of the URLs reads as `u`. -/
def Names (parseUrl : String → Option String) (urls : List String) (u : String) : Prop :=
  ∃ url ∈ urls, parseUrl url = some u

theorem mem_reattach :
    u ∈ (client.reattach N).relays ↔ ∃ i url, client.configured[i]? = some url
      ∧ N.parseUrl url = some u ∧ (u ∈ client.relays ∨ N.answers i u = true) := by
  show u ∈ (reattachFrom N client.relays 0 client.configured [] []).1 ↔ _
  rw [reattachFrom_eq, mem_gather, or_iff_right List.not_mem_nil, Offered]
  simp only [offer_eq_some, Nat.zero_add]

theorem mem_unattached {parseUrl : String → Option String} :
    u ∈ client.unattached parseUrl
      ↔ u ∉ client.relays ∧ Names parseUrl client.configured u := by
  rw [RelayClient.unattached, mem_unattachedFrom, or_iff_right List.not_mem_nil, Names]

theorem mem_connect {relays : List String} (h : RelayClient.connect N relays = some client) :
    client.configured = relays
      ∧ (u ∈ client.relays ↔ ∃ i url, relays[i]? = some url
        ∧ N.parseUrl url = some u ∧ N.answers i u = true) := by
  rw [RelayClient.connect] at h
  split_ifs at h
  cases h
  refine ⟨rfl, ?_⟩
  show u ∈ connectFrom N 0 relays [] ↔ _
  rw [connectFrom_eq, mem_gather, or_iff_right List.not_mem_nil, Offered]
  simp only [add_eq_some, Nat.zero_add]

/-- The relays in play stand in the order they are named in. -/
theorem sublist_reattach :
    List.Sublist (client.reattach N).relays (client.configured.filterMap N.parseUrl) := by
  show List.Sublist (reattachFrom N client.relays 0 client.configured [] []).1 _
  rw [reattachFrom_eq]
  have hsub : List.Sublist (gather (N.offer client.relays) 0 client.configured [])
      ([] ++ client.configured.filterMap N.parseUrl) :=
    sublist_gather fun n a b _ hoffer => (offer_eq_some.mp hoffer).1
  exact hsub

theorem of_mem_client_dialled (h : u ∈ client.dialled N) :
    u ∉ client.relays ∧ Names N.parseUrl client.configured u := by
  rcases of_mem_dialled h with hnil | hright
  · exact nomatch hnil
  · exact hright

/-- What is named and is not in play after a pass has been dialled in it. -/
theorem mem_dialled_of_refused {held : List String} {i : Nat}
    {urls attached dialled : List String}
    (hout : u ∉ (reattachFrom N held i urls attached dialled).1)
    (h : u ∈ dialled ∨ Names N.parseUrl urls u) :
    u ∈ (reattachFrom N held i urls attached dialled).2 := by
  induction urls generalizing i attached dialled with
  | nil =>
      rcases h with hin | ⟨url, hurl, -⟩
      · exact hin
      · exact nomatch hurl
  | cons url rest ih =>
      have hrest : N.parseUrl url ≠ some u → u ∈ dialled ∨ Names N.parseUrl rest u := by
        intro hne
        rcases h with hin | ⟨x, hx, hread⟩
        · exact Or.inl hin
        · rcases List.mem_cons.mp hx with rfl | hx
          · exact absurd hread hne
          · exact Or.inr ⟨x, hx, hread⟩
      rw [reattachFrom] at hout ⊢
      cases hread : N.parseUrl url with
      | none =>
          rw [hread] at hout hrest
          exact ih hout (hrest (by simp))
      | some parsed =>
          rw [hread] at hout hrest
          dsimp only at hout ⊢
          by_cases hne : parsed = u
          · -- Here it stands: not kept before, not held, so it is dialled.
            subst hne
            have hgather : ∀ {attached dialled : List String}, parsed ∈ attached →
                parsed ∈ (reattachFrom N held (i + 1) rest attached dialled).1 := by
              intro attached dialled hin
              rw [reattachFrom_eq, mem_gather]
              exact Or.inl hin
            by_cases hc : attached.contains parsed = true
            · rw [if_pos hc] at hout
              exact absurd (hgather (List.contains_iff_mem.mp hc)) hout
            · rw [if_neg hc] at hout ⊢
              by_cases hheld : held.contains parsed = true
              · rw [if_pos hheld] at hout
                exact absurd (hgather (List.mem_append_right _ (List.mem_singleton_self _))) hout
              · rw [if_neg hheld] at hout ⊢
                cases hadd : N.add i url with
                | none =>
                    rw [hadd] at hout
                    exact ih hout (Or.inl (List.mem_append_right _ (List.mem_singleton_self _)))
                | some added =>
                    have hadded := (add_eq_some.mp hadd).1
                    rw [hread] at hadded
                    cases hadded
                    rw [hadd] at hout
                    exact absurd (hgather (List.mem_append_right _
                      (List.mem_singleton_self _))) hout
          · have hlater := hrest (by simpa using hne)
            by_cases hc : attached.contains parsed = true
            · rw [if_pos hc] at hout ⊢
              exact ih hout hlater
            · rw [if_neg hc] at hout ⊢
              by_cases hheld : held.contains parsed = true
              · rw [if_pos hheld] at hout ⊢
                exact ih hout hlater
              · rw [if_neg hheld] at hout ⊢
                have hmore : u ∈ dialled ++ [parsed] ∨ Names N.parseUrl rest u :=
                  hlater.imp_left (List.mem_append_left _)
                cases hadd : N.add i url with
                | none =>
                    rw [hadd] at hout
                    exact ih hout hmore
                | some added =>
                    rw [hadd] at hout
                    exact ih hout hmore

end Client

/-! ## A client over a run -/

/-- What a run does with its client. -/
inductive Turn where
  | reconfigure (relays : List String)
  | reattach (answers : Nat → String → Bool)

namespace RelayClient

/-- One turn. -/
def turn (parseUrl : String → Option String) (client : RelayClient) : Turn → RelayClient
  | .reconfigure relays => client.reconfigure relays
  | .reattach answers => client.reattach ⟨parseUrl, answers⟩

/-- One turn after another. -/
def run (parseUrl : String → Option String) (turns : List Turn) (client : RelayClient) :
    RelayClient :=
  turns.foldl (turn parseUrl) client

end RelayClient

/-- Every list the client is given names `u`. -/
def AlwaysNamed (parseUrl : String → Option String) (turns : List Turn) (u : String) : Prop :=
  ∀ relays, Turn.reconfigure relays ∈ turns → Names parseUrl relays u

/-- **RUN**: a relay in play stays in play while it is named. -/
theorem in_play_run {parseUrl : String → Option String} {turns : List Turn} {u : String}
    {client : RelayClient} (hplay : u ∈ client.relays)
    (hnamed : Names parseUrl client.configured u) (h : AlwaysNamed parseUrl turns u) :
    u ∈ (client.run parseUrl turns).relays
      ∧ Names parseUrl (client.run parseUrl turns).configured u := by
  induction turns generalizing client with
  | nil => exact ⟨hplay, hnamed⟩
  | cons turn rest ih =>
      have hrest : AlwaysNamed parseUrl rest u := fun relays hmem =>
        h relays (List.mem_cons_of_mem _ hmem)
      cases turn with
      | reconfigure relays =>
          exact @ih (client.reconfigure relays) hplay (h relays List.mem_cons_self) hrest
      | reattach answers =>
          refine @ih (client.reattach ⟨parseUrl, answers⟩) ?_ hnamed hrest
          obtain ⟨url, hurl, hread⟩ := hnamed
          obtain ⟨i, hi⟩ := List.getElem?_of_mem hurl
          exact mem_reattach.mpr ⟨i, url, hi, hread, Or.inl hplay⟩

/-- **THE CLIENT KEEPS WHAT ANSWERED.**  After any run of turns and one more
    `reattach`: the relays in play are named, in the order of the names; what is
    named and not in play was dialled in this pass and refused at every place it
    is named; and a relay once in play, and named ever since, is in play and was
    not dialled again. -/
theorem reattach_run (N : Pass) (client : RelayClient) (turns : List Turn) :
    List.Sublist ((client.run N.parseUrl turns).reattach N).relays
        ((client.run N.parseUrl turns).configured.filterMap N.parseUrl)
      ∧ (∀ u ∈ ((client.run N.parseUrl turns).reattach N).unattached N.parseUrl,
        u ∈ (client.run N.parseUrl turns).dialled N
          ∧ ∀ i url, (client.run N.parseUrl turns).configured[i]? = some url →
            N.parseUrl url = some u → N.answers i u = false)
      ∧ (∀ u ∈ client.relays, Names N.parseUrl client.configured u →
        AlwaysNamed N.parseUrl turns u →
          u ∈ ((client.run N.parseUrl turns).reattach N).relays
            ∧ u ∉ (client.run N.parseUrl turns).dialled N) := by
  refine ⟨sublist_reattach, fun u hu => ?_, fun u hplay hnamed halways => ?_⟩
  · obtain ⟨hout, hnamed⟩ := mem_unattached.mp hu
    refine ⟨mem_dialled_of_refused hout (Or.inr hnamed), fun i url hi hread => ?_⟩
    rw [mem_reattach] at hout
    by_contra hanswers
    exact hout ⟨i, url, hi, hread, Or.inr (Bool.not_eq_false _ |>.mp hanswers)⟩
  · obtain ⟨hin, url, hurl, hread⟩ := in_play_run hplay hnamed halways
    obtain ⟨i, hi⟩ := List.getElem?_of_mem hurl
    exact ⟨mem_reattach.mpr ⟨i, url, hi, hread, Or.inl hin⟩,
      fun hdialled => (of_mem_client_dialled hdialled).1 hin⟩

end Dialling
