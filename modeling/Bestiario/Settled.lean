import Bestiario.Settings
import Bestiario.Stored

/-! # What a loaded configuration promises

    * `load_decides` — an error is true of the file, and a file of which none is true is
      accepted;
    * `load_settles` — what is accepted is settled: it is well formed, and loading it
      again gives it back;
    * `load_follows` — the indexer follows the instances the file names, however it
      spells them;
    * `load_assumes` — an override is what is assumed of its instance, however the file
      spells it. -/

namespace Config

open Keyed Checks
open Wire (trim isWhitespace isBlank bind_eq_ok)
open Repo (mapM_eq_ok_iff mem_of_mapM exists_of_mapM exists_mapM)
open Publish (isHex64 isHex64_iff)
open Stats (Floats)

variable {F : Type} {W : Library} {A : Floats F}

/-! ## What folding makes of a file -/

/-- The spelling is a name that does not decode. -/
def BadName (W : Library) (text : String) (e : ValidationError F) : Prop :=
  ∃ reason, e = .pubkeyNotNpub (W.lower (trim text)) reason
    ∧ looksLikeBech32 (W.lower (trim text)) = true
    ∧ W.npub (W.lower (trim text)) = .error reason

theorem judges_canonicalPubkey (text : String) :
    Judges (canonicalPubkey (F := F) W text) (BadName W text) := by
  rw [canonicalPubkey]
  by_cases hshape : looksLikeBech32 (W.lower (trim text)) = false
  · rw [if_pos hshape]
    refine ⟨fun _ h => (nomatch h), fun _ _ e hbad => ?_⟩
    obtain ⟨_, _, hlooks, _⟩ := hbad
    exact Bool.eq_false_iff.mp hshape hlooks
  · rw [if_neg hshape]
    cases hnpub : W.npub (W.lower (trim text)) with
    | ok pubkey =>
        refine ⟨fun _ h => (nomatch h), fun _ _ e hbad => ?_⟩
        obtain ⟨_, _, _, herror⟩ := hbad
        exact nomatch hnpub.symm.trans herror
    | error reason =>
        refine ⟨fun e h => ?_, fun _ h => nomatch h⟩
        exact ⟨reason, (Except.error.inj h).symm, eq_true_of_ne_false hshape, hnpub⟩

/-- How the table spells an instance. -/
def spelledAs (W : Library) (raw : Table String F) (pubkey : String) : List String :=
  (standing (canonicalPubkey (F := F) W) raw.toList pubkey).map fun row => trim row.1

/-- A key does not decode, or an instance has two. -/
def BadOverrides (W : Library) (raw : Table String F) (e : ValidationError F) : Prop :=
  (∃ text ∈ raw, BadName W text e)
    ∨ ∃ pubkey, e = .duplicateDevFeeOverride pubkey (spelledAs W raw pubkey)
        ∧ 1 < (spelledAs W raw pubkey).length

theorem judges_canonicalDevFeeOverrides (raw : Table String F) :
    Judges (canonicalDevFeeOverrides W raw) (BadOverrides W raw) := by
  cases hfold : refold (canonicalPubkey (F := F) W) trim raw.toList with
  | error err =>
      obtain ⟨row, hrow, hstop⟩ := refold_error hfold
      have hval : canonicalDevFeeOverrides W raw = .error err := by
        rw [canonicalDevFeeOverrides, hfold]
        rfl
      rw [hval]
      refine ⟨fun e h => Or.inl ?_, fun _ h => nomatch h⟩
      have herr : err = e := Except.error.inj h
      exact ⟨row.1, key_mem hrow, (judges_canonicalPubkey row.1).blames e (herr ▸ hstop)⟩
  | ok folded =>
      have hholds := refold_holds hfold
      cases hcollision : folded.collision with
      | some spelled =>
          obtain ⟨hall, hmany⟩ := hholds.of_collision hcollision
          have hval : canonicalDevFeeOverrides W raw
              = .error (.duplicateDevFeeOverride spelled.1 spelled.2) := by
            simp only [canonicalDevFeeOverrides, hfold, bind, Except.bind, hcollision]
          rw [hval]
          refine ⟨fun e h => Or.inr ⟨spelled.1, ?_⟩, fun _ h => nomatch h⟩
          rw [spelledAs, ← hall]
          exact ⟨(Except.error.inj h).symm, hmany⟩
      | none =>
          have hval : canonicalDevFeeOverrides W raw = .ok folded.values := by
            simp only [canonicalDevFeeOverrides, hfold, bind, Except.bind, hcollision]
          rw [hval]
          refine ⟨fun _ h => (nomatch h), fun _ _ e hbad => ?_⟩
          rcases hbad with ⟨text, htext, hname⟩ | ⟨pubkey, _, hmany⟩
          · obtain ⟨v, hv⟩ := mem_iff_exists.mp htext
            obtain ⟨c, hc⟩ := hholds.read (text, v) (mem_toList_iff.mpr hv)
            exact (judges_canonicalPubkey text).clears c hc e hname
          · rw [spelledAs, List.length_map] at hmany
            exact absurd (hholds.of_no_collision hcollision pubkey) (Nat.not_le.mpr hmany)

/-- An instance's or an override's spelling does not decode, or an override's instance has
    two. -/
def BadSpelling (W : Library) (raw : Settings F) (e : ValidationError F) : Prop :=
  (∃ text ∈ raw.indexer.instances, BadName W text e)
    ∨ BadOverrides W raw.assumptions.devFeePercentage e

theorem judges_normalized (raw : Settings F) :
    Judges (normalized W raw) (BadSpelling W raw) := by
  have hall := (Judges.every fun text (_ : text ∈ raw.indexer.instances) =>
    judges_canonicalPubkey (F := F) (W := W) text).seq fun instances _ =>
      (judges_canonicalDevFeeOverrides (W := W) raw.assumptions.devFeePercentage).seq
        fun devFeePercentage _ => Judges.pass ({ raw with
          indexer := { raw.indexer with instances := instances }
          assumptions := { raw.assumptions with devFeePercentage := devFeePercentage }
          report := { referenceCurrency := W.upper (trim raw.report.referenceCurrency) }
          publish := { raw.publish with
            relays := if raw.publish.relays.isEmpty then raw.nostr.relays
              else raw.publish.relays } } : Settings F)
  refine hall.imp ?_ ?_
  · rintro e (hname | ⟨_, _, hover | ⟨_, _, hno⟩⟩)
    · exact Or.inl hname
    · exact Or.inr hover
    · exact hno.elim
  · intro s hs e hbad
    obtain ⟨instances, hinstances, _⟩ := bind_eq_ok.mp hs
    exact hbad.imp id fun hover => ⟨instances, hinstances, Or.inl hover⟩

/-- The settings are the file, each pubkey under its one spelling. -/
structure Folds (W : Library) (raw s : Settings F) : Prop where
  nostr : s.nostr = raw.nostr
  instances : List.Forall₂ (fun text pubkey => canonicalPubkey (F := F) W text = .ok pubkey)
    raw.indexer.instances s.indexer.instances
  indexer : s.indexer = { raw.indexer with instances := s.indexer.instances }
  otherwise : s.assumptions.devFeePercentageDefault = raw.assumptions.devFeePercentageDefault
  overrides : ∀ pubkey v, s.assumptions.devFeePercentage[pubkey]? = some v
    ↔ ∃ text, raw.assumptions.devFeePercentage[text]? = some v
        ∧ canonicalPubkey (F := F) W text = .ok pubkey
  database : s.database = raw.database
  report : s.report.referenceCurrency = W.upper (trim raw.report.referenceCurrency)
  publish : s.publish = { raw.publish with
    relays := if raw.publish.relays.isEmpty then raw.nostr.relays else raw.publish.relays }

theorem canonicalDevFeeOverrides_eq_ok {raw table : Table String F}
    (h : canonicalDevFeeOverrides W raw = .ok table) (pubkey : String) (v : F) :
    table[pubkey]? = some v ↔ ∃ text, raw[text]? = some v
      ∧ canonicalPubkey (F := F) W text = .ok pubkey := by
  rw [canonicalDevFeeOverrides] at h
  obtain ⟨folded, hfold, hrest⟩ := bind_eq_ok.mp h
  cases hcollision : folded.collision with
  | some spelled =>
      rw [hcollision] at hrest
      exact nomatch hrest
  | none =>
      rw [hcollision] at hrest
      have htable : table = folded.values := (Except.ok.inj hrest).symm
      rw [htable, (refold_holds hfold).values_eq_some_iff hcollision]
      exact exists_congr fun text => and_congr_left fun _ => mem_toList_iff

theorem folds_of_normalized {raw s : Settings F} (h : normalized W raw = .ok s) :
    Folds W raw s := by
  rw [normalized] at h
  obtain ⟨instances, hinstances, h⟩ := bind_eq_ok.mp h
  obtain ⟨devFeePercentage, hoverrides, h⟩ := bind_eq_ok.mp h
  rw [← Except.ok.inj h]
  exact { nostr := rfl, instances := mapM_eq_ok_iff.mp hinstances, indexer := rfl,
          otherwise := rfl, overrides := canonicalDevFeeOverrides_eq_ok hoverrides,
          database := rfl, report := rfl, publish := rfl }

/-- A pubkey the file names, under the one spelling of it. -/
def Named (W : Library) (raw : Settings F) (pubkey : String) : Prop :=
  ∃ text, (text ∈ raw.indexer.instances ∨ text ∈ raw.assumptions.devFeePercentage)
    ∧ canonicalPubkey (F := F) W text = .ok pubkey

/-- What is checked is what the file names. -/
theorem Folds.named_iff {raw s : Settings F} (h : Folds W raw s) (pubkey : String) :
    (pubkey ∈ s.indexer.instances ∨ pubkey ∈ s.assumptions.devFeePercentage)
      ↔ Named W raw pubkey := by
  have hinstances := mapM_eq_ok_iff.mpr h.instances
  constructor
  · rintro (hmem | hkey)
    · obtain ⟨text, htext, hfold⟩ := mem_of_mapM hinstances hmem
      exact ⟨text, Or.inl htext, hfold⟩
    · obtain ⟨v, hv⟩ := mem_iff_exists.mp hkey
      obtain ⟨text, htext, hfold⟩ := (h.overrides pubkey v).mp hv
      exact ⟨text, Or.inr (mem_iff_exists.mpr ⟨v, htext⟩), hfold⟩
  · rintro ⟨text, hmem | hkey, hfold⟩
    · obtain ⟨pubkey', hmem', hfold'⟩ := exists_of_mapM hinstances hmem
      exact Or.inl (Except.ok.inj (hfold'.symm.trans hfold) ▸ hmem')
    · obtain ⟨v, hv⟩ := mem_iff_exists.mp hkey
      have hover := (h.overrides pubkey v).mpr ⟨text, hv, hfold⟩
      exact Or.inr (mem_iff_exists.mpr ⟨v, hover⟩)

/-! ## What the checks answer for -/

/-- What the check of a pubkey says of it. -/
def BadPubkey (pubkey : String) (e : ValidationError F) : Prop :=
  (e = .pubkeyLength pubkey pubkey.utf8ByteSize ∧ pubkey.utf8ByteSize ≠ 64)
    ∨ ∃ found, e = .pubkeyNotHex pubkey found ∧ pubkey.utf8ByteSize = 64
        ∧ (pubkey.toList.find? fun c => !isAsciiHexdigit c) = some found

theorem judges_validatePubkey (pubkey : String) :
    Judges (validatePubkey (F := F) pubkey) (BadPubkey pubkey) := by
  by_cases hlen : pubkey.utf8ByteSize = 64
  · cases hfound : pubkey.toList.find? fun c => !isAsciiHexdigit c with
    | none =>
        have hval : validatePubkey (F := F) pubkey = .ok () := by
          rw [validatePubkey, if_neg (not_not_intro hlen), hfound]
        rw [hval]
        refine ⟨fun _ h => (nomatch h), fun _ _ e hbad => ?_⟩
        rcases hbad with ⟨_, hno⟩ | ⟨found, _, _, hfind⟩
        · exact hno hlen
        · exact nomatch hfound.symm.trans hfind
    | some found =>
        have hval : validatePubkey (F := F) pubkey = .error (.pubkeyNotHex pubkey found) := by
          rw [validatePubkey, if_neg (not_not_intro hlen), hfound]
        rw [hval]
        refine ⟨fun e h => Or.inr ⟨found, ?_⟩, fun _ h => nomatch h⟩
        exact ⟨(Except.error.inj h).symm, hlen, hfound⟩
  · rw [validatePubkey, if_pos hlen]
    refine ⟨fun e h => Or.inl ?_, fun _ h => nomatch h⟩
    exact ⟨(Except.error.inj h).symm, hlen⟩

/-- What an error says of settings already folded. -/
def Wrong (A : Floats F) (s : Settings F) : ValidationError F → Prop
  | .noRelays => s.nostr.relays = []
  | .relayNotWebsocket url => url ∈ s.nostr.relays ∧ isWebsocket url = false
  | .pubkeyLength pubkey len =>
      (pubkey ∈ s.indexer.instances ∨ pubkey ∈ s.assumptions.devFeePercentage)
        ∧ len = pubkey.utf8ByteSize ∧ len ≠ 64
  | .pubkeyNotHex pubkey found =>
      (pubkey ∈ s.indexer.instances ∨ pubkey ∈ s.assumptions.devFeePercentage)
        ∧ pubkey.utf8ByteSize = 64
        ∧ (pubkey.toList.find? fun c => !isAsciiHexdigit c) = some found
  | .pubkeyNotNpub _ _ => False
  | .duplicateDevFeeOverride _ _ => False
  | .nothingToIndex => s.indexer.instances = [] ∧ s.indexer.acceptUnknownInstances = false
  | .noNetworks => s.indexer.networks = []
  | .negativeBackfillFrom value => value = s.indexer.backfillFrom ∧ value < 0
  | .devFeePercentageOutOfRange setting value => isFraction A value = false
      ∧ ((setting = defaultSetting ∧ value = s.assumptions.devFeePercentageDefault)
        ∨ ∃ pubkey, s.assumptions.devFeePercentage[pubkey]? = some value
            ∧ setting = overrideSetting pubkey)
  | .databaseNotSqlite url => url = s.database.url ∧ "sqlite:".toList.isPrefixOf url.toList = false
  | .referenceCurrencyNotIso code => code = s.report.referenceCurrency ∧ isCode code = false
  | .publishRelayNotWebsocket url =>
      url ∈ s.publish.relays ∧ url ∉ s.nostr.relays ∧ isWebsocket url = false
  | .publishCeilingIsZero => s.publish.maxContentBytes = 0

/-- A list of relays, checked one by one. -/
theorem judges_websockets (relays : List String) (err : String → ValidationError F) :
    Judges (relays.forM fun url => ensure (isWebsocket url = true) (err url))
      fun e => ∃ url ∈ relays, ¬ isWebsocket url = true ∧ e = err url :=
  Judges.each fun _ _ => Judges.ensure

theorem judges_validateRelays (s : Settings F) : Judges (validateRelays s) fun e =>
    (¬ s.nostr.relays ≠ [] ∧ e = .noRelays)
      ∨ ∃ url ∈ s.nostr.relays, ¬ isWebsocket url = true ∧ e = .relayNotWebsocket url :=
  Judges.ensure.also fun _ => judges_websockets s.nostr.relays .relayNotWebsocket

theorem judges_validateIndexer (s : Settings F) : Judges (validateIndexer s) fun e =>
    (∃ pubkey ∈ s.indexer.instances, BadPubkey pubkey e)
      ∨ (¬ (s.indexer.instances ≠ [] ∨ s.indexer.acceptUnknownInstances = true)
          ∧ e = .nothingToIndex)
      ∨ (¬ s.indexer.networks ≠ [] ∧ e = .noNetworks)
      ∨ (¬ 0 ≤ s.indexer.backfillFrom ∧ e = .negativeBackfillFrom s.indexer.backfillFrom) :=
  (Judges.each fun pubkey _ => judges_validatePubkey pubkey).also fun _ =>
    Judges.ensure.also fun _ => Judges.ensure.also fun _ => Judges.ensure

theorem judges_validateAssumptions (s : Settings F) : Judges (validateAssumptions A s) fun e =>
    (¬ isFraction A s.assumptions.devFeePercentageDefault = true
        ∧ e = .devFeePercentageOutOfRange defaultSetting s.assumptions.devFeePercentageDefault)
      ∨ ∃ entry ∈ s.assumptions.devFeePercentage.toList, BadPubkey entry.1 e
          ∨ (¬ isFraction A entry.2 = true
              ∧ e = .devFeePercentageOutOfRange (overrideSetting entry.1) entry.2) :=
  Judges.ensure.also fun _ => Judges.each fun entry _ =>
    (judges_validatePubkey entry.1).also fun _ => Judges.ensure

theorem judges_validateDatabase (s : Settings F) : Judges (validateDatabase s) fun e =>
    ¬ "sqlite:".toList.isPrefixOf s.database.url.toList = true
      ∧ e = .databaseNotSqlite s.database.url :=
  Judges.ensure

theorem judges_validateReport (s : Settings F) : Judges (validateReport s) fun e =>
    ¬ isCode s.report.referenceCurrency = true
      ∧ e = .referenceCurrencyNotIso s.report.referenceCurrency :=
  Judges.ensure

theorem judges_validatePublish (s : Settings F) : Judges (validatePublish s) fun e =>
    (∃ url ∈ s.publish.relays, ¬ isWebsocket url = true ∧ e = .publishRelayNotWebsocket url)
      ∨ (¬ s.publish.maxContentBytes ≠ 0 ∧ e = .publishCeilingIsZero) :=
  (judges_websockets s.publish.relays .publishRelayNotWebsocket).also fun _ => Judges.ensure

/-- A relay both lists have was checked in the first. -/
theorem judges_unchecked {s : Settings F} (hrelays : validateRelays s = .ok ()) :
    Judges (validatePublish s) fun e =>
      (∃ url ∈ s.publish.relays, (url ∉ s.nostr.relays ∧ isWebsocket url = false)
          ∧ e = .publishRelayNotWebsocket url)
        ∨ (s.publish.maxContentBytes = 0 ∧ e = .publishCeilingIsZero) := by
  refine (judges_validatePublish s).imp ?_ ?_
  · rintro e (⟨url, hmem, hsocket, rfl⟩ | ⟨hzero, rfl⟩)
    · refine Or.inl ⟨url, hmem, ⟨fun hin => ?_, Bool.eq_false_iff.mpr hsocket⟩, rfl⟩
      exact (judges_validateRelays s).clears () hrelays (.relayNotWebsocket url)
        (Or.inr ⟨url, hin, hsocket, rfl⟩)
    · exact Or.inr ⟨not_not.mp hzero, rfl⟩
  · rintro _ _ e (⟨url, hmem, ⟨_, hsocket⟩, rfl⟩ | ⟨hzero, rfl⟩)
    · exact Or.inl ⟨url, hmem, Bool.eq_false_iff.mp hsocket, rfl⟩
    · exact Or.inr ⟨not_not_intro hzero, rfl⟩

/-- **THE CHECKS** answer for every error there is: one given is true of the settings, and
    of settings that pass none is. -/
theorem judges_validate (s : Settings F) : Judges (validate A s) (Wrong A s) := by
  have hall := (judges_validateRelays s).also fun hrelays =>
    (judges_validateIndexer s).also fun _ => (judges_validateAssumptions (A := A) s).also fun _ =>
      (judges_validateDatabase s).also fun _ => (judges_validateReport s).also fun _ =>
      judges_unchecked hrelays
  have hpubkey : ∀ pubkey e, (pubkey ∈ s.indexer.instances
      ∨ pubkey ∈ s.assumptions.devFeePercentage) → BadPubkey pubkey e → Wrong A s e := by
    rintro pubkey e hin (⟨rfl, hlen⟩ | ⟨found, rfl, hlen, hfind⟩)
    · exact ⟨hin, rfl, hlen⟩
    · exact ⟨hin, hlen, hfind⟩
  have hbad : ∀ (pubkey : String) (e : ValidationError F), (pubkey ∈ s.indexer.instances
      ∨ pubkey ∈ s.assumptions.devFeePercentage) → BadPubkey pubkey e →
      (∃ pubkey ∈ s.indexer.instances, BadPubkey pubkey e)
        ∨ ∃ entry ∈ s.assumptions.devFeePercentage.toList, BadPubkey entry.1 e := by
    rintro pubkey e (hin | hin) hwhy
    · exact Or.inl ⟨pubkey, hin, hwhy⟩
    · obtain ⟨v, hv⟩ := mem_iff_exists.mp hin
      exact Or.inr ⟨(pubkey, v), mem_toList_iff.mpr hv, hwhy⟩
  refine hall.imp (fun e h => ?_) (fun _ _ e h => ?_)
  · rcases h with (⟨hnone, rfl⟩ | ⟨url, hmem, hsocket, rfl⟩)
        | (⟨pubkey, hmem, hwhy⟩ | ⟨hnone, rfl⟩ | ⟨hnone, rfl⟩ | ⟨hneg, rfl⟩)
        | (⟨hfraction, rfl⟩ | ⟨entry, hmem, hwhy | ⟨hfraction, rfl⟩⟩)
        | ⟨hurl, rfl⟩ | ⟨hcode, rfl⟩ | ⟨url, hmem, ⟨hnew, hsocket⟩, rfl⟩ | ⟨hzero, rfl⟩
    · exact not_not.mp hnone
    · exact ⟨hmem, Bool.eq_false_iff.mpr hsocket⟩
    · exact hpubkey pubkey e (Or.inl hmem) hwhy
    · obtain ⟨hinstances, haccept⟩ := not_or.mp hnone
      exact ⟨not_not.mp hinstances, Bool.eq_false_iff.mpr haccept⟩
    · exact not_not.mp hnone
    · exact ⟨rfl, not_le.mp hneg⟩
    · exact ⟨Bool.eq_false_iff.mpr hfraction, Or.inl ⟨rfl, rfl⟩⟩
    · exact hpubkey entry.1 e (Or.inr (key_mem hmem)) hwhy
    · exact ⟨Bool.eq_false_iff.mpr hfraction,
        Or.inr ⟨entry.1, mem_toList_iff.mp hmem, rfl⟩⟩
    · exact ⟨rfl, Bool.eq_false_iff.mpr hurl⟩
    · exact ⟨rfl, Bool.eq_false_iff.mpr hcode⟩
    · exact ⟨hmem, hnew, hsocket⟩
    · exact hzero
  · -- Case by case: which of the checks the error is from.
    cases e with
    | noRelays => exact Or.inl (Or.inl ⟨not_not_intro h, rfl⟩)
    | relayNotWebsocket url =>
        obtain ⟨hmem, hsocket⟩ := h
        exact Or.inl (Or.inr ⟨url, hmem, Bool.eq_false_iff.mp hsocket, rfl⟩)
    | pubkeyLength pubkey len =>
        obtain ⟨hin, rfl, hlen⟩ := h
        rcases hbad pubkey _ hin (Or.inl ⟨rfl, hlen⟩) with hfirst | ⟨entry, hmem, hwhy⟩
        · exact Or.inr (Or.inl (Or.inl hfirst))
        · exact Or.inr (Or.inr (Or.inl (Or.inr ⟨entry, hmem, Or.inl hwhy⟩)))
    | pubkeyNotHex pubkey found =>
        obtain ⟨hin, hlen, hfind⟩ := h
        rcases hbad pubkey _ hin (Or.inr ⟨found, rfl, hlen, hfind⟩) with
          hfirst | ⟨entry, hmem, hwhy⟩
        · exact Or.inr (Or.inl (Or.inl hfirst))
        · exact Or.inr (Or.inr (Or.inl (Or.inr ⟨entry, hmem, Or.inl hwhy⟩)))
    | pubkeyNotNpub pubkey reason => exact h.elim
    | duplicateDevFeeOverride pubkey spellings => exact h.elim
    | nothingToIndex =>
        obtain ⟨hinstances, haccept⟩ := h
        refine Or.inr (Or.inl (Or.inr (Or.inl ⟨?_, rfl⟩)))
        exact not_or.mpr ⟨not_not_intro hinstances, Bool.eq_false_iff.mp haccept⟩
    | noNetworks => exact Or.inr (Or.inl (Or.inr (Or.inr (Or.inl ⟨not_not_intro h, rfl⟩))))
    | negativeBackfillFrom value =>
        obtain ⟨rfl, hneg⟩ := h
        exact Or.inr (Or.inl (Or.inr (Or.inr (Or.inr ⟨not_le.mpr hneg, rfl⟩))))
    | devFeePercentageOutOfRange setting value =>
        obtain ⟨hfraction, ⟨rfl, rfl⟩ | ⟨pubkey, hv, rfl⟩⟩ := h
        · exact Or.inr (Or.inr (Or.inl (Or.inl ⟨Bool.eq_false_iff.mp hfraction, rfl⟩)))
        · refine Or.inr (Or.inr (Or.inl (Or.inr ⟨(pubkey, value), ?_, Or.inr ⟨?_, rfl⟩⟩)))
          · exact mem_toList_iff.mpr hv
          · exact Bool.eq_false_iff.mp hfraction
    | databaseNotSqlite url =>
        obtain ⟨rfl, hurl⟩ := h
        exact Or.inr (Or.inr (Or.inr (Or.inl ⟨Bool.eq_false_iff.mp hurl, rfl⟩)))
    | referenceCurrencyNotIso code =>
        obtain ⟨rfl, hcode⟩ := h
        exact Or.inr (Or.inr (Or.inr (Or.inr (Or.inl ⟨Bool.eq_false_iff.mp hcode, rfl⟩))))
    | publishRelayNotWebsocket url =>
        obtain ⟨hmem, hwhy⟩ := h
        exact Or.inr (Or.inr (Or.inr (Or.inr (Or.inr (Or.inl ⟨url, hmem, hwhy, rfl⟩)))))
    | publishCeilingIsZero =>
        exact Or.inr (Or.inr (Or.inr (Or.inr (Or.inr (Or.inr ⟨h, rfl⟩)))))

/-! ## What loading answers for -/

/-- What an error says of the file. -/
def ValidationError.TrueOf (W : Library) (A : Floats F) (raw : Settings F) :
    ValidationError F → Prop
  | .noRelays => raw.nostr.relays = []
  | .relayNotWebsocket url => url ∈ raw.nostr.relays ∧ isWebsocket url = false
  | .pubkeyLength pubkey len => Named W raw pubkey ∧ len = pubkey.utf8ByteSize ∧ len ≠ 64
  | .pubkeyNotHex pubkey found => Named W raw pubkey ∧ pubkey.utf8ByteSize = 64
      ∧ (pubkey.toList.find? fun c => !isAsciiHexdigit c) = some found
  | .pubkeyNotNpub pubkey reason => ∃ text,
      (text ∈ raw.indexer.instances ∨ text ∈ raw.assumptions.devFeePercentage)
        ∧ pubkey = W.lower (trim text) ∧ looksLikeBech32 pubkey = true
        ∧ W.npub pubkey = .error reason
  | .duplicateDevFeeOverride pubkey spellings =>
      spellings = spelledAs W raw.assumptions.devFeePercentage pubkey ∧ 1 < spellings.length
  | .nothingToIndex => raw.indexer.instances = [] ∧ raw.indexer.acceptUnknownInstances = false
  | .noNetworks => raw.indexer.networks = []
  | .negativeBackfillFrom value => value = raw.indexer.backfillFrom ∧ value < 0
  | .devFeePercentageOutOfRange setting value => isFraction A value = false
      ∧ ((setting = defaultSetting ∧ value = raw.assumptions.devFeePercentageDefault)
        ∨ ∃ text pubkey, raw.assumptions.devFeePercentage[text]? = some value
            ∧ canonicalPubkey (F := F) W text = .ok pubkey ∧ setting = overrideSetting pubkey)
  | .databaseNotSqlite url =>
      url = raw.database.url ∧ "sqlite:".toList.isPrefixOf url.toList = false
  | .referenceCurrencyNotIso code =>
      code = W.upper (trim raw.report.referenceCurrency) ∧ isCode code = false
  | .publishRelayNotWebsocket url => url ∈ raw.publish.relays ∧ isWebsocket url = false
  | .publishCeilingIsZero => raw.publish.maxContentBytes = 0

/-- An error about the spelling of a pubkey is true of the file, and is one of two. -/
theorem trueOf_of_badSpelling {raw : Settings F} {e : ValidationError F}
    (h : BadSpelling W raw e) : e.TrueOf W A raw := by
  rcases h with ⟨text, hmem, reason, rfl, hlooks, herror⟩
      | ⟨text, hkey, reason, rfl, hlooks, herror⟩ | ⟨pubkey, rfl, hmany⟩
  · exact ⟨text, Or.inl hmem, rfl, hlooks, herror⟩
  · exact ⟨text, Or.inr hkey, rfl, hlooks, herror⟩
  · exact ⟨rfl, hmany⟩

theorem Folds.instances_eq_nil_iff {raw s : Settings F} (h : Folds W raw s) :
    s.indexer.instances = [] ↔ raw.indexer.instances = [] := by
  rw [← List.length_eq_zero_iff, ← List.length_eq_zero_iff, h.instances.length_eq]

/-- An error true of the folded settings is true of the file. -/
theorem Folds.trueOf_of_wrong {raw s : Settings F} (h : Folds W raw s) {e : ValidationError F}
    (hwrong : Wrong A s e) : e.TrueOf W A raw := by
  have hrelays : s.nostr.relays = raw.nostr.relays := congrArg _ h.nostr
  have hindexer := h.indexer
  have hpublish := h.publish
  cases e with
  | noRelays => exact hrelays.symm.trans hwrong
  | relayNotWebsocket url => exact ⟨hrelays ▸ hwrong.1, hwrong.2⟩
  | pubkeyLength pubkey len => exact ⟨(h.named_iff pubkey).mp hwrong.1, hwrong.2⟩
  | pubkeyNotHex pubkey found => exact ⟨(h.named_iff pubkey).mp hwrong.1, hwrong.2⟩
  | pubkeyNotNpub pubkey reason => exact hwrong.elim
  | duplicateDevFeeOverride pubkey spellings => exact hwrong.elim
  | nothingToIndex =>
      obtain ⟨hnone, haccept⟩ := hwrong
      rw [hindexer] at haccept
      exact ⟨h.instances_eq_nil_iff.mp hnone, haccept⟩
  | noNetworks =>
      exact (congrArg IndexerSettings.networks hindexer).symm.trans hwrong
  | negativeBackfillFrom value =>
      obtain ⟨hvalue, hneg⟩ := hwrong
      rw [hindexer] at hvalue
      exact ⟨hvalue, hneg⟩
  | devFeePercentageOutOfRange setting value =>
      obtain ⟨hfraction, ⟨hsetting, hvalue⟩ | ⟨pubkey, hv, hsetting⟩⟩ := hwrong
      · exact ⟨hfraction, Or.inl ⟨hsetting, hvalue.trans h.otherwise⟩⟩
      · obtain ⟨text, htext, hfold⟩ := (h.overrides pubkey value).mp hv
        exact ⟨hfraction, Or.inr ⟨text, pubkey, htext, hfold, hsetting⟩⟩
  | databaseNotSqlite url => exact ⟨hwrong.1.trans (congrArg _ h.database), hwrong.2⟩
  | referenceCurrencyNotIso code => exact ⟨hwrong.1.trans h.report, hwrong.2⟩
  | publishRelayNotWebsocket url =>
      obtain ⟨hmem, hnew, hsocket⟩ := hwrong
      rw [hpublish] at hmem
      rw [h.nostr] at hnew
      refine ⟨?_, hsocket⟩
      -- Left empty, the list is the one already checked.
      by_cases hnone : raw.publish.relays.isEmpty = true
      · rw [if_pos hnone] at hmem
        exact absurd hmem hnew
      · rwa [if_neg hnone] at hmem
  | publishCeilingIsZero =>
      exact (congrArg PublishSettings.maxContentBytes hpublish).symm.trans hwrong

/-- Where an error is true of the file, one is of the folded settings; it is another one
    for a relay that both lists have. -/
theorem Folds.wrong_of_trueOf {raw s : Settings F} (h : Folds W raw s)
    (hclear : ∀ e, ¬ BadSpelling W raw e) {e : ValidationError F} (htrue : e.TrueOf W A raw) :
    ∃ e', Wrong A s e' := by
  have hrelays : s.nostr.relays = raw.nostr.relays := congrArg _ h.nostr
  have hindexer := h.indexer
  have hpublish := h.publish
  cases e with
  | noRelays => exact ⟨.noRelays, hrelays.trans htrue⟩
  | relayNotWebsocket url => exact ⟨.relayNotWebsocket url, hrelays ▸ htrue.1, htrue.2⟩
  | pubkeyLength pubkey len =>
      exact ⟨.pubkeyLength pubkey len, (h.named_iff pubkey).mpr htrue.1, htrue.2⟩
  | pubkeyNotHex pubkey found =>
      exact ⟨.pubkeyNotHex pubkey found, (h.named_iff pubkey).mpr htrue.1, htrue.2⟩
  | pubkeyNotNpub pubkey reason =>
      obtain ⟨text, hin, rfl, hlooks, herror⟩ := htrue
      rcases hin with hmem | hkey
      · exact absurd (Or.inl ⟨text, hmem, reason, rfl, hlooks, herror⟩) (hclear _)
      · exact absurd (Or.inr (Or.inl ⟨text, hkey, reason, rfl, hlooks, herror⟩)) (hclear _)
  | duplicateDevFeeOverride pubkey spellings =>
      obtain ⟨rfl, hmany⟩ := htrue
      exact absurd (Or.inr (Or.inr ⟨pubkey, rfl, hmany⟩)) (hclear _)
  | nothingToIndex =>
      refine ⟨.nothingToIndex, h.instances_eq_nil_iff.mpr htrue.1, ?_⟩
      rw [hindexer]
      exact htrue.2
  | noNetworks =>
      exact ⟨.noNetworks, (congrArg IndexerSettings.networks hindexer).trans htrue⟩
  | negativeBackfillFrom value =>
      refine ⟨.negativeBackfillFrom value, ?_, htrue.2⟩
      rw [hindexer]
      exact htrue.1
  | devFeePercentageOutOfRange setting value =>
      obtain ⟨hfraction, ⟨hsetting, hvalue⟩ | ⟨text, pubkey, htext, hfold, hsetting⟩⟩ := htrue
      · exact ⟨.devFeePercentageOutOfRange setting value, hfraction,
          Or.inl ⟨hsetting, hvalue.trans h.otherwise.symm⟩⟩
      · exact ⟨.devFeePercentageOutOfRange setting value, hfraction,
          Or.inr ⟨pubkey, (h.overrides pubkey value).mpr ⟨text, htext, hfold⟩, hsetting⟩⟩
  | databaseNotSqlite url =>
      exact ⟨.databaseNotSqlite url, htrue.1.trans (congrArg _ h.database).symm, htrue.2⟩
  | referenceCurrencyNotIso code =>
      exact ⟨.referenceCurrencyNotIso code, htrue.1.trans h.report.symm, htrue.2⟩
  | publishRelayNotWebsocket url =>
      obtain ⟨hmem, hsocket⟩ := htrue
      -- The list checked first answers for it where both have it.
      by_cases hin : url ∈ s.nostr.relays
      · exact ⟨.relayNotWebsocket url, hin, hsocket⟩
      · refine ⟨.publishRelayNotWebsocket url, ?_, hin, hsocket⟩
        have hsome : ¬ raw.publish.relays.isEmpty = true := fun hnone =>
          absurd (List.isEmpty_iff.mp hnone) (List.ne_nil_of_mem hmem)
        rw [hpublish, if_neg hsome]
        exact hmem
  | publishCeilingIsZero =>
      exact ⟨.publishCeilingIsZero,
        (congrArg PublishSettings.maxContentBytes hpublish).trans htrue⟩

theorem judges_load (raw : Settings F) :
    Judges (load W A raw) fun e : ValidationError F => e.TrueOf W A raw := by
  have hall := (judges_normalized (W := W) raw).seq fun s _ =>
    (judges_validate (A := A) s).also fun _ => Judges.pass s
  refine hall.imp ?_ ?_
  · rintro e (hspelling | ⟨s, hs, hwrong | hno⟩)
    · exact trueOf_of_badSpelling hspelling
    · exact (folds_of_normalized hs).trueOf_of_wrong hwrong
    · exact hno.elim
  · intro s hs e htrue
    exfalso
    obtain ⟨s', hs', hrest⟩ := bind_eq_ok.mp hs
    obtain ⟨done, hvalid, _⟩ := bind_eq_ok.mp hrest
    obtain ⟨e', hwrong⟩ := (folds_of_normalized hs').wrong_of_trueOf
      ((judges_normalized raw).clears s' hs') htrue
    exact (judges_validate s').clears done hvalid e' hwrong

/-- **LOADING DECIDES**: an error is true of the file it is about — it names a relay, a
    pubkey, a figure the file has — and a file is accepted exactly when no error there is
    would be true of it. -/
theorem load_decides (W : Library) (A : Floats F) (raw : Settings F) :
    (∀ e, load W A raw = .error e → e.TrueOf W A raw)
      ∧ ((∃ s, load W A raw = .ok s) ↔ ∀ e : ValidationError F, ¬ e.TrueOf W A raw) := by
  have hjudges := judges_load (W := W) (A := A) raw
  refine ⟨hjudges.blames, fun ⟨s, hs⟩ => hjudges.clears s hs, fun hclear => ?_⟩
  cases hload : load W A raw with
  | error e => exact absurd (hjudges.blames e hload) (hclear e)
  | ok s => exact ⟨s, rfl⟩

/-! ## Plain text -/

/-- A digit of a lowercase hex pubkey is ASCII, no capital and no white space. -/
theorem plain_of_hex {c : Char} (h : c ∈ "0123456789abcdef".toList) :
    c.toNat < 128 ∧ c.isUpper = false ∧ isWhitespace c = false ∧ isAsciiHexdigit c = true := by
  have hlist : "0123456789abcdef".toList = ['0', '1', '2', '3', '4', '5', '6', '7', '8', '9',
      'a', 'b', 'c', 'd', 'e', 'f'] := rfl
  rw [hlist] at h
  simp only [List.mem_cons, List.not_mem_nil, or_false] at h
  rcases h with h | h | h | h | h | h | h | h | h | h | h | h | h | h | h | h
  all_goals
    subst h
    decide

/-- A hexadecimal digit that is no capital. -/
theorem hex_of_digit {c : Char} (h : isAsciiHexdigit c = true) (hlower : c.isUpper = false) :
    c ∈ "0123456789abcdef".toList := by
  refine Publish.hex_iff.mp ?_
  rw [isAsciiHexdigit, Bool.or_eq_true] at h
  rcases h with h | hcapital
  · exact h
  · exfalso
    rw [Bool.and_eq_true, decide_eq_true_eq, decide_eq_true_eq] at hcapital
    obtain ⟨hlo, hhi⟩ := hcapital
    have hrange : 65 ≤ c.toNat ∧ c.toNat ≤ 70 := ⟨hlo, hhi⟩
    have hupper : c.isUpper = true := by
      rw [Char.isUpper, decide_eq_true_eq]
      exact ⟨hlo, (UInt32.le_iff_toNat_le).mpr (by
        show c.toNat ≤ 90
        omega)⟩
    exact absurd (hlower.symm.trans hupper) Bool.false_ne_true

/-- Text without white space is as it was after trimming. -/
theorem trim_eq_self {text : String} (h : ∀ c ∈ text.toList, isWhitespace c = false) :
    trim text = text := by
  have hdrop : ∀ l : List Char, (∀ c ∈ l, isWhitespace c = false) →
      l.dropWhile isWhitespace = l := by
    intro l hl
    cases l with
    | nil => rfl
    | cons c l =>
        refine List.dropWhile_cons_of_neg ?_
        rw [hl c List.mem_cons_self]
        exact Bool.false_ne_true
  rw [trim, hdrop _ h, hdrop _ fun c hc => h c (List.mem_reverse.mp hc), List.reverse_reverse,
    String.ofList_toList]

/-- ASCII text has a byte for each character. -/
theorem utf8ByteSize_of_ascii {text : String} (h : IsAscii text) :
    text.utf8ByteSize = text.toList.length := by
  have hbytes : ∀ l : List Char, (∀ c ∈ l, c.toNat < 128) →
      (String.ofList l).utf8ByteSize = l.length := by
    intro l
    induction l with
    | nil => exact fun _ => rfl
    | cons c l ih =>
        intro hl
        have hone : c.utf8Size = 1 := Char.utf8Size_eq_one_iff.mpr
          (UInt32.le_iff_toNat_le.mpr (Nat.le_of_lt_succ (hl c List.mem_cons_self)))
        rw [String.ofList_cons, String.utf8ByteSize_append, String.utf8ByteSize_singleton,
          ih fun d hd => hl d (List.mem_cons_of_mem _ hd), hone, List.length_cons,
          Nat.add_comm]
  rw [← String.ofList_toList (s := text), hbytes text.toList h, String.toList_ofList]

theorem map_eq_self {f : Char → Char} {l : List Char} (h : ∀ c ∈ l, f c = c) : l.map f = l :=
  (List.map_congr_left h).trans (List.map_id l)

theorem ascii_of_hex64 {pubkey : String} (h : isHex64 pubkey = true) : IsAscii pubkey :=
  fun c hc => (plain_of_hex ((isHex64_iff.mp h).2 c hc)).1

theorem lower_hex64 {pubkey : String} (h : isHex64 pubkey = true) : W.lower pubkey = pubkey := by
  refine String.toList_inj.mp ?_
  rw [W.lower_ascii pubkey (ascii_of_hex64 h)]
  exact map_eq_self fun c hc => Char.toLower_eq_of_not_isUpper
    (Bool.eq_false_iff.mp (plain_of_hex ((isHex64_iff.mp h).2 c hc)).2.1)

/-- What passes the check of a pubkey, and has no capital, is one in lowercase hex. -/
theorem hex64_iff_clear {pubkey : String} (hlower : ∀ c ∈ pubkey.toList, c.isUpper = false) :
    isHex64 pubkey = true ↔ ∀ e : ValidationError F, ¬ BadPubkey pubkey e := by
  constructor
  · intro h e hbad
    obtain ⟨hlength, hdigits⟩ := isHex64_iff.mp h
    rcases hbad with ⟨_, hlen⟩ | ⟨found, _, _, hfind⟩
    · exact hlen ((utf8ByteSize_of_ascii (ascii_of_hex64 h)).trans hlength)
    · have hnot := List.find?_some hfind
      rw [(plain_of_hex (hdigits found (List.mem_of_find?_eq_some hfind))).2.2.2] at hnot
      exact absurd hnot Bool.false_ne_true
  · intro h
    have hlen : pubkey.utf8ByteSize = 64 := by
      by_contra hlen
      exact h _ (Or.inl ⟨rfl, hlen⟩)
    have hdigits : ∀ c ∈ pubkey.toList, c ∈ "0123456789abcdef".toList := by
      intro c hc
      refine hex_of_digit ?_ (hlower c hc)
      by_contra hnot
      cases hfind : pubkey.toList.find? fun c => !isAsciiHexdigit c with
      | none =>
          refine absurd (List.find?_eq_none.mp hfind c hc) (not_not_intro ?_)
          rw [Bool.eq_false_iff.mpr hnot]
          rfl
      | some found => exact h _ (Or.inr ⟨found, rfl, hlen, hfind⟩)
    refine isHex64_iff.mpr ⟨?_, hdigits⟩
    rw [← utf8ByteSize_of_ascii fun c hc => (plain_of_hex (hdigits c hc)).1]
    exact hlen

/-- A folded pubkey has no capital. -/
theorem canonicalPubkey_lower {text pubkey : String}
    (h : canonicalPubkey (F := F) W text = .ok pubkey) :
    ∀ c ∈ pubkey.toList, c.isUpper = false := by
  rw [canonicalPubkey] at h
  by_cases hshape : looksLikeBech32 (W.lower (trim text)) = false
  · rw [if_pos hshape] at h
    rw [← Except.ok.inj h]
    exact W.lower_settled (trim text)
  · rw [if_neg hshape] at h
    cases hnpub : W.npub (W.lower (trim text)) with
    | error reason =>
        rw [hnpub] at h
        exact nomatch h
    | ok hex =>
        rw [hnpub] at h
        rw [← Except.ok.inj h]
        exact fun c hc => (plain_of_hex ((isHex64_iff.mp (W.npub_hex _ _ hnpub)).2 c hc)).2.1

/-- A pubkey in lowercase hex is its own one spelling. -/
theorem canonicalPubkey_hex64 {pubkey : String} (h : isHex64 pubkey = true) :
    canonicalPubkey (F := F) W pubkey = .ok pubkey := by
  have hdigits := (isHex64_iff.mp h).2
  have htrim : trim pubkey = pubkey :=
    trim_eq_self fun c hc => (plain_of_hex (hdigits c hc)).2.2.1
  -- What stands before a `1` is hex throughout, so it is the prefix of no name.
  have hhrp : (pubkey.toList.takeWhile fun c => c != '1').all isAsciiHexdigit = true :=
    List.all_eq_true.mpr fun c hc =>
      (plain_of_hex (hdigits c ((List.takeWhile_prefix _).subset hc))).2.2.2
  have hshape : looksLikeBech32 pubkey = false := by
    rw [looksLikeBech32, hhrp, Bool.not_true, Bool.and_false]
  rw [canonicalPubkey, htrim, lower_hex64 h, if_pos hshape]

/-! ## Settled settings -/

/-- Settings that make sense, each pubkey in lowercase hex and the currency in capitals. -/
structure Valid (A : Floats F) (s : Settings F) : Prop where
  relays : s.nostr.relays ≠ []
  sockets : ∀ url ∈ s.nostr.relays, isWebsocket url = true
  instances : ∀ pubkey ∈ s.indexer.instances, isHex64 pubkey = true
  something : s.indexer.instances ≠ [] ∨ s.indexer.acceptUnknownInstances = true
  networks : s.indexer.networks ≠ []
  backfillFrom : 0 ≤ s.indexer.backfillFrom
  otherwise : isFraction A s.assumptions.devFeePercentageDefault = true
  overrides : ∀ pubkey v, s.assumptions.devFeePercentage[pubkey]? = some v →
    isHex64 pubkey = true ∧ isFraction A v = true
  database : "sqlite:".toList.isPrefixOf s.database.url.toList = true
  currency : s.report.referenceCurrency.toList.length = 3
    ∧ ∀ c ∈ s.report.referenceCurrency.toList, c.isUpper = true
  publishers : s.publish.relays ≠ []
  publisherSockets : ∀ url ∈ s.publish.relays, isWebsocket url = true
  ceiling : s.publish.maxContentBytes ≠ 0

/-- A capital is ASCII, no small letter and no white space. -/
theorem plain_of_upper {c : Char} (h : c.isUpper = true) :
    c.toNat < 128 ∧ c.isLower = false ∧ isWhitespace c = false ∧ c.isAlpha = true := by
  have hrange : 65 ≤ c.toNat ∧ c.toNat ≤ 90 := by
    rw [Char.isUpper, decide_eq_true_eq] at h
    exact ⟨h.1, h.2⟩
  have hall : ∀ n : Fin 91, 65 ≤ n.val → (Char.ofNat n.val).toNat < 128
      ∧ (Char.ofNat n.val).isLower = false ∧ isWhitespace (Char.ofNat n.val) = false
      ∧ (Char.ofNat n.val).isAlpha = true := by decide
  have hc := hall ⟨c.toNat, by omega⟩ hrange.1
  rwa [Char.ofNat_toNat] at hc

/-- Of settings that make sense no error is true. -/
theorem Valid.not_wrong {s : Settings F} (h : Valid A s) (e : ValidationError F) :
    ¬ Wrong A s e := by
  have hpubkey : ∀ pubkey, (pubkey ∈ s.indexer.instances
      ∨ pubkey ∈ s.assumptions.devFeePercentage) → isHex64 pubkey = true := by
    rintro pubkey (hmem | hkey)
    · exact h.instances pubkey hmem
    · obtain ⟨v, hv⟩ := mem_iff_exists.mp hkey
      exact (h.overrides pubkey v hv).1
  have hclear : ∀ pubkey, isHex64 pubkey = true → ∀ e : ValidationError F, ¬ BadPubkey pubkey e :=
    fun pubkey hhex => (hex64_iff_clear fun c hc =>
      (plain_of_hex ((isHex64_iff.mp hhex).2 c hc)).2.1).mp hhex
  intro hwrong
  cases e with
  | noRelays => exact h.relays hwrong
  | relayNotWebsocket url =>
      exact absurd (hwrong.2.symm.trans (h.sockets url hwrong.1)) Bool.false_ne_true
  | pubkeyLength pubkey len =>
      obtain ⟨hin, rfl, hlen⟩ := hwrong
      exact hclear pubkey (hpubkey pubkey hin) _ (Or.inl ⟨rfl, hlen⟩)
  | pubkeyNotHex pubkey found =>
      obtain ⟨hin, hlen, hfind⟩ := hwrong
      exact hclear pubkey (hpubkey pubkey hin) _ (Or.inr ⟨found, rfl, hlen, hfind⟩)
  | pubkeyNotNpub pubkey reason => exact hwrong
  | duplicateDevFeeOverride pubkey spellings => exact hwrong
  | nothingToIndex =>
      obtain ⟨hinstances, haccept⟩ := hwrong
      rcases h.something with hsome | hunknown
      · exact hsome hinstances
      · exact absurd (haccept.symm.trans hunknown) Bool.false_ne_true
  | noNetworks => exact h.networks hwrong
  | negativeBackfillFrom value =>
      obtain ⟨rfl, hneg⟩ := hwrong
      exact absurd h.backfillFrom (not_le.mpr hneg)
  | devFeePercentageOutOfRange setting value =>
      obtain ⟨hfraction, ⟨_, rfl⟩ | ⟨pubkey, hv, _⟩⟩ := hwrong
      · exact absurd (hfraction.symm.trans h.otherwise) Bool.false_ne_true
      · exact absurd (hfraction.symm.trans (h.overrides pubkey value hv).2) Bool.false_ne_true
  | databaseNotSqlite url =>
      obtain ⟨rfl, hurl⟩ := hwrong
      exact absurd (hurl.symm.trans h.database) Bool.false_ne_true
  | referenceCurrencyNotIso code =>
      obtain ⟨rfl, hcode⟩ := hwrong
      obtain ⟨hlength, hletters⟩ := h.currency
      have hbytes := utf8ByteSize_of_ascii fun c hc => (plain_of_upper (hletters c hc)).1
      have hgood : isCode s.report.referenceCurrency = true := by
        rw [isCode, hbytes, hlength, Bool.and_eq_true, List.all_eq_true]
        exact ⟨rfl, fun c hc => (plain_of_upper (hletters c hc)).2.2.2⟩
      exact absurd (hcode.symm.trans hgood) Bool.false_ne_true
  | publishRelayNotWebsocket url =>
      exact absurd (hwrong.2.2.symm.trans (h.publisherSockets url hwrong.1)) Bool.false_ne_true
  | publishCeilingIsZero => exact h.ceiling hwrong

/-- What is loaded is the file folded, and no error is true of it. -/
theorem folds_of_load {raw s : Settings F} (h : load W A raw = .ok s) :
    Folds W raw s ∧ ∀ e, ¬ Wrong A s e := by
  obtain ⟨s', hfold, hrest⟩ := bind_eq_ok.mp h
  obtain ⟨done, hvalid, hs⟩ := bind_eq_ok.mp hrest
  have hsame : s' = s := Except.ok.inj hs
  rw [← hsame]
  exact ⟨folds_of_normalized hfold, (judges_validate s').clears done hvalid⟩

/-- **WHAT IS LOADED MAKES SENSE**. -/
theorem valid_of_load {raw s : Settings F} (h : load W A raw = .ok s) : Valid A s := by
  obtain ⟨hfolds, hclear⟩ := folds_of_load h
  -- A pubkey is checked for its digits and folded to small letters: both make it hex.
  have hnamed : ∀ pubkey, (pubkey ∈ s.indexer.instances
      ∨ pubkey ∈ s.assumptions.devFeePercentage) → isHex64 pubkey = true := by
    intro pubkey hin
    obtain ⟨text, _, htext⟩ := (hfolds.named_iff pubkey).mp hin
    refine (hex64_iff_clear (F := F) (canonicalPubkey_lower htext)).mpr fun e hbad => ?_
    rcases hbad with ⟨rfl, hlen⟩ | ⟨found, rfl, hlen, hfind⟩
    · exact hclear (.pubkeyLength pubkey _) ⟨hin, rfl, hlen⟩
    · exact hclear (.pubkeyNotHex pubkey found) ⟨hin, hlen, hfind⟩
  have hsockets : ∀ url ∈ s.nostr.relays, isWebsocket url = true := fun url hmem =>
    eq_true_of_ne_false fun hsocket => hclear (.relayNotWebsocket url) ⟨hmem, hsocket⟩
  have hrelays : s.nostr.relays ≠ [] := fun hnone => hclear .noRelays hnone
  have hcode : isCode s.report.referenceCurrency = true := eq_true_of_ne_false fun hcode =>
    hclear (.referenceCurrencyNotIso s.report.referenceCurrency) ⟨rfl, hcode⟩
  refine {
    relays := hrelays
    sockets := hsockets
    instances := fun pubkey hmem => hnamed pubkey (Or.inl hmem)
    something := ?_
    networks := fun hnone => hclear .noNetworks hnone
    backfillFrom := not_lt.mp fun hneg => hclear (.negativeBackfillFrom _) ⟨rfl, hneg⟩
    otherwise := eq_true_of_ne_false fun hfraction =>
      hclear (.devFeePercentageOutOfRange defaultSetting _) ⟨hfraction, Or.inl ⟨rfl, rfl⟩⟩
    overrides := fun pubkey v hv => ⟨hnamed pubkey (Or.inr ?_), ?_⟩
    database := eq_true_of_ne_false fun hurl => hclear (.databaseNotSqlite _) ⟨rfl, hurl⟩
    currency := ?_
    publishers := ?_
    publisherSockets := ?_
    ceiling := fun hzero => hclear .publishCeilingIsZero hzero }
  · by_contra hnothing
    obtain ⟨hnone, haccept⟩ := not_or.mp hnothing
    exact hclear .nothingToIndex ⟨not_not.mp hnone, Bool.eq_false_iff.mpr haccept⟩
  · exact mem_iff_exists.mpr ⟨v, hv⟩
  · exact eq_true_of_ne_false fun hfraction =>
      hclear (.devFeePercentageOutOfRange (overrideSetting pubkey) v)
        ⟨hfraction, Or.inr ⟨pubkey, hv, rfl⟩⟩
  · rw [isCode, Bool.and_eq_true, beq_iff_eq, List.all_eq_true] at hcode
    obtain ⟨hbytes, hletters⟩ := hcode
    have hupper : ∀ c ∈ s.report.referenceCurrency.toList, c.isUpper = true := by
      intro c hc
      have hletter := hletters c hc
      -- The check takes letters of either case, and folding left no small one.
      have hnot : c.isLower = false := by
        rw [hfolds.report] at hc
        exact W.upper_settled _ c hc
      rwa [Char.isAlpha, hnot, Bool.or_false] at hletter
    refine ⟨?_, hupper⟩
    rw [← utf8ByteSize_of_ascii fun c hc => (plain_of_upper (hupper c hc)).1]
    exact hbytes
  · have hpublish : s.publish.relays = _ := congrArg PublishSettings.relays hfolds.publish
    rw [hpublish]
    by_cases hnone : raw.publish.relays.isEmpty = true
    · rw [if_pos hnone, ← congrArg NostrSettings.relays hfolds.nostr]
      exact hrelays
    · rw [if_neg hnone]
      exact fun hnil => hnone (List.isEmpty_iff.mpr hnil)
  · intro url hmem
    by_cases hin : url ∈ s.nostr.relays
    · exact hsockets url hin
    · exact eq_true_of_ne_false fun hsocket =>
        hclear (.publishRelayNotWebsocket url) ⟨hmem, hin, hsocket⟩

/-- A table of settled keys is its own folding. -/
theorem canonicalDevFeeOverrides_settled {table : Table String F}
    (h : ∀ pubkey ∈ table, isHex64 pubkey = true) :
    canonicalDevFeeOverrides W table = .ok table := by
  have hfix : ∀ pubkey ∈ table, canonicalPubkey (F := F) W pubkey = .ok pubkey :=
    fun pubkey hin => canonicalPubkey_hex64 (h pubkey hin)
  cases hfold : refold (canonicalPubkey (F := F) W) trim table.toList with
  | error e =>
      obtain ⟨row, hrow, hstop⟩ := refold_error hfold
      exact nomatch hstop.symm.trans (hfix row.1 (key_mem hrow))
  | ok folded =>
      obtain ⟨hcollision, hvalues⟩ := (refold_holds hfold).of_fixed hfix
      simp only [canonicalDevFeeOverrides, hfold, bind, Except.bind, hcollision, hvalues]

/-- **WHAT MAKES SENSE IS LOADED AS IT STANDS**. -/
theorem Valid.load {s : Settings F} (h : Valid A s) : load W A s = .ok s := by
  have hinstances : s.indexer.instances.mapM (canonicalPubkey (F := F) W)
      = .ok s.indexer.instances :=
    mapM_eq_ok_iff.mpr (List.forall₂_same.mpr fun pubkey hmem =>
      canonicalPubkey_hex64 (h.instances pubkey hmem))
  have hoverrides : canonicalDevFeeOverrides W s.assumptions.devFeePercentage
      = .ok s.assumptions.devFeePercentage := by
    refine canonicalDevFeeOverrides_settled fun pubkey hin => ?_
    obtain ⟨v, hv⟩ := mem_iff_exists.mp hin
    exact (h.overrides pubkey v hv).1
  have hcode : W.upper (trim s.report.referenceCurrency) = s.report.referenceCurrency := by
    obtain ⟨_, hletters⟩ := h.currency
    rw [trim_eq_self fun c hc => (plain_of_upper (hletters c hc)).2.2.1]
    refine String.toList_inj.mp ?_
    rw [W.upper_ascii _ fun c hc => (plain_of_upper (hletters c hc)).1]
    exact map_eq_self fun c hc => Char.toUpper_eq_of_not_isLower
      (Bool.eq_false_iff.mp (plain_of_upper (hletters c hc)).2.1)
  have hpublish : ¬ s.publish.relays.isEmpty = true := fun hnone =>
    h.publishers (List.isEmpty_iff.mp hnone)
  have hfold : normalized W s = .ok s := by
    rw [normalized, hinstances]
    change (canonicalDevFeeOverrides W s.assumptions.devFeePercentage >>= _) = _
    rw [hoverrides, hcode, if_neg hpublish]
    rfl
  have hvalid : validate A s = .ok () := by
    cases hcheck : validate A s with
    | error e => exact absurd ((judges_validate s).blames e hcheck) (h.not_wrong e)
    | ok done => rfl
  rw [Config.load, hfold]
  change (validate A s >>= _) = _
  rw [hvalid]
  rfl

/-- **LOADING SETTLES A FILE**: what is loaded is exactly what makes sense — each pubkey in
    lowercase hex, each relay a websocket, a relay to publish to — and loading that again
    gives it back unchanged. -/
theorem load_settles (W : Library) (A : Floats F) (s : Settings F) :
    ((∃ raw, load W A raw = .ok s) ↔ Valid A s) ∧ (Valid A s ↔ load W A s = .ok s) := by
  refine ⟨⟨?_, fun h => ⟨s, h.load⟩⟩, Valid.load, valid_of_load⟩
  rintro ⟨raw, hraw⟩
  exact valid_of_load hraw

/-- **EVERY DEFAULT PASSES ITS OWN CHECK**: a file that names relays and instances needs
    nothing else. -/
theorem default_valid {relays instances : List String}
    (hfraction : isFraction A (A.div (A.ofInt 3) (A.ofInt 10)) = true) (hrelays : relays ≠ [])
    (hsockets : ∀ url ∈ relays, isWebsocket url = true) (hinstances : instances ≠ [])
    (hhex : ∀ pubkey ∈ instances, isHex64 pubkey = true) :
    Valid A { Settings.default A with
      nostr := { (Settings.default A).nostr with relays := relays }
      indexer := { (Settings.default A).indexer with instances := instances }
      publish := { (Settings.default A).publish with relays := relays } } where
  relays := hrelays
  sockets := hsockets
  instances := hhex
  something := Or.inl hinstances
  networks := List.cons_ne_nil _ _
  backfillFrom := le_rfl
  otherwise := hfraction
  overrides _ _ hv := absurd hv (by simp [Settings.default])
  database := show "sqlite:".toList.isPrefixOf "sqlite://bestiario.db".toList = true by decide
  currency := by
    have hletters : "USD".toList = ['U', 'S', 'D'] := rfl
    show "USD".toList.length = 3 ∧ ∀ c ∈ "USD".toList, c.isUpper = true
    rw [hletters, List.forall_mem_cons, List.forall_mem_cons, List.forall_mem_singleton]
    exact ⟨rfl, by decide, by decide, by decide⟩
  publishers := hrelays
  publisherSockets := hsockets
  ceiling := show 64 * 1024 ≠ 0 by decide

/-! ## What the settings are read for -/

/-- `Policy::from(&settings.indexer)`: the policy the indexer runs under. -/
def Settings.policy (s : Settings F) : Pipeline.Policy :=
  Pipeline.Policy.new s.indexer.instances s.indexer.acceptUnknownInstances s.indexer.networks

/-- What the dev fee reports assume. -/
def Settings.assumption (s : Settings F) : Stats.Assumption F :=
  ⟨s.assumptions.devFeePercentage, s.assumptions.devFeePercentageDefault⟩

/-- Reading the policy off settled settings changes no pubkey. -/
theorem Valid.policy_instances {s : Settings F} (h : Valid A s) :
    s.policy.instances = s.indexer.instances := by
  have hsame : ∀ pubkey ∈ s.indexer.instances, (trim pubkey).toLower = pubkey := by
    intro pubkey hmem
    have hdigits := (isHex64_iff.mp (h.instances pubkey hmem)).2
    rw [trim_eq_self fun c hc => (plain_of_hex (hdigits c hc)).2.2.1]
    refine String.toList_inj.mp ?_
    rw [String.toLower, String.toList_map]
    exact map_eq_self fun c hc => Char.toLower_eq_of_not_isUpper
      (Bool.eq_false_iff.mp (plain_of_hex (hdigits c hc)).2.1)
  exact (List.map_congr_left hsame).trans (List.map_id _)

/-- The letter case of ASCII text, and one name the key library knows. -/
def Library.ascii : Library where
  lower text := String.ofList (text.toList.map Char.toLower)
  upper text := String.ofList (text.toList.map Char.toUpper)
  npub text :=
    if text = "npub1sn0wdenkukak0d9dfczzeacvhkrgz92ak56egt7vdgzn8pv2wfqqhrjdv9" then
      .ok "84dee6e676e5bb67b4ad4e042cf70cbd8681155db535942fcc6a0533858a7240"
    else .error "malformed"
  lower_ascii _ _ := String.toList_ofList
  lower_settled text c hc := by
    rw [String.toList_ofList] at hc
    obtain ⟨d, _, rfl⟩ := List.mem_map.mp hc
    exact Char.isUpper_toLower_eq_false d
  upper_ascii _ _ := String.toList_ofList
  upper_settled text c hc := by
    rw [String.toList_ofList] at hc
    obtain ⟨d, _, rfl⟩ := List.mem_map.mp hc
    exact Char.isLower_toUpper_eq_false d
  npub_hex text pubkey h := by
    by_cases hname : text = "npub1sn0wdenkukak0d9dfczzeacvhkrgz92ak56egt7vdgzn8pv2wfqqhrjdv9"
    · rw [if_pos hname] at h
      rw [← Except.ok.inj h]
      decide +kernel
    · rw [if_neg hname] at h
      exact nomatch h

/-- One instance, listed as an npub, with an override in capitals. -/
def npubFile : Settings Int :=
  { Settings.default Floats.whole with
    nostr := { relays := ["wss://relay.mostro.network"], discoverRelays := false,
               resumeOverlapSecs := 3600 }
    indexer := {
      instances := ["npub1sn0wdenkukak0d9dfczzeacvhkrgz92ak56egt7vdgzn8pv2wfqqhrjdv9"]
      acceptUnknownInstances := false
      networks := [.mainnet]
      backfillFrom := 0 }
    assumptions := {
      devFeePercentageDefault := 1
      devFeePercentage := (∅ : Table String Int).insert
        "84DEE6E676E5BB67B4AD4E042CF70CBD8681155DB535942FCC6A0533858A7240" 1 } }

theorem npubFile_loads : ∃ s, load Library.ascii Floats.whole npubFile = .ok s := by
  have hok : (load Library.ascii Floats.whole npubFile).toOption.isSome = true := by
    decide +kernel
  cases hload : load Library.ascii Floats.whole npubFile with
  | error e =>
      rw [hload] at hok
      exact absurd hok Bool.false_ne_true
  | ok s => exact ⟨s, rfl⟩

/-- **THE INDEXER FOLLOWS THE INSTANCES THE FILE NAMES**, in whatever spelling, and no
    other unless it is told to accept them all. -/
theorem load_follows {raw s : Settings F} (h : load W A raw = .ok s) (pubkey : String) :
    s.policy.acceptsInstance pubkey = true
      ↔ raw.indexer.acceptUnknownInstances = true
        ∨ ∃ text ∈ raw.indexer.instances,
            canonicalPubkey (F := F) W text = .ok pubkey.toLower := by
  have hvalid := valid_of_load h
  obtain ⟨hfolds, -⟩ := folds_of_load h
  have haccept : s.policy.acceptUnknownInstances = raw.indexer.acceptUnknownInstances := by
    have hindexer := congrArg IndexerSettings.acceptUnknownInstances hfolds.indexer
    exact hindexer
  have hinstances := mapM_eq_ok_iff.mpr hfolds.instances
  rw [Pipeline.Policy.acceptsInstance, Pipeline.Policy.listsInstance, Bool.or_eq_true, haccept,
    hvalid.policy_instances, List.contains_iff_mem]
  refine or_congr_right ⟨mem_of_mapM hinstances, ?_⟩
  rintro ⟨text, htext, hread⟩
  obtain ⟨pubkey', hmem, hread'⟩ := exists_of_mapM hinstances htext
  rwa [← Except.ok.inj (hread'.symm.trans hread)]

/-- The instance listed as an npub is followed. -/
theorem npub_followed : ∃ s, load Library.ascii Floats.whole npubFile = .ok s
    ∧ s.policy.acceptsInstance
      "84dee6e676e5bb67b4ad4e042cf70cbd8681155db535942fcc6a0533858a7240" = true := by
  obtain ⟨s, hs⟩ := npubFile_loads
  exact ⟨s, hs, (load_follows hs _).mpr
    (Or.inr ⟨_, List.mem_singleton_self _, by decide +kernel⟩)⟩

/-- **AN OVERRIDE IS WHAT IS ASSUMED OF ITS INSTANCE**, in whatever spelling it is written
    and asked for, and of an instance without one the default is; and the reports, which
    look a pubkey up as it is stored, assume the same. -/
theorem load_assumes {raw s : Settings F} (h : load W A raw = .ok s) (pubkey : String) :
    (∀ text v, raw.assumptions.devFeePercentage[text]? = some v →
        canonicalPubkey (F := F) W text = .ok (W.lower pubkey) →
        s.assumptions.devFeePercentageFor W pubkey = v)
      ∧ ((∀ text ∈ raw.assumptions.devFeePercentage,
          canonicalPubkey (F := F) W text ≠ .ok (W.lower pubkey)) →
        s.assumptions.devFeePercentageFor W pubkey = raw.assumptions.devFeePercentageDefault)
      ∧ (isHex64 pubkey = true →
        s.assumption.share pubkey = s.assumptions.devFeePercentageFor W pubkey) := by
  obtain ⟨hfolds, -⟩ := folds_of_load h
  refine ⟨fun text v hv hread => ?_, fun hnone => ?_, fun hhex => ?_⟩
  · rw [AssumptionSettings.devFeePercentageFor, (hfolds.overrides _ v).mpr ⟨text, hv, hread⟩]
    rfl
  · cases hover : s.assumptions.devFeePercentage[W.lower pubkey]? with
    | none =>
        rw [AssumptionSettings.devFeePercentageFor, hover]
        exact hfolds.otherwise
    | some v =>
        obtain ⟨text, htext, hread⟩ := (hfolds.overrides _ v).mp hover
        exact absurd hread (hnone text (mem_iff_exists.mpr ⟨v, htext⟩))
  · rw [AssumptionSettings.devFeePercentageFor, lower_hex64 hhex]
    rfl

/-- The override written in capitals is the one assumed. -/
theorem npub_assumed : ∃ s, load Library.ascii Floats.whole npubFile = .ok s
    ∧ s.assumptions.devFeePercentageFor Library.ascii
      "84dee6e676e5bb67b4ad4e042cf70cbd8681155db535942fcc6a0533858a7240" = 1 := by
  obtain ⟨s, hs⟩ := npubFile_loads
  exact ⟨s, hs, (load_assumes hs _).1
    "84DEE6E676E5BB67B4AD4E042CF70CBD8681155DB535942FCC6A0533858A7240" 1 (by decide +kernel)
    (by decide +kernel)⟩

end Config
