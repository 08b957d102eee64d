import Bestiario.Lib.Checks
import Bestiario.Lib.Folding
import Bestiario.Publishing

/-! # The configuration

    `src/config/mod.rs` and `secret.rs`.  A file that parsed is folded to one spelling of
    every pubkey and then checked, setting by setting, once and before anything runs: a
    setting that cannot be acted on is refused at startup with an error that names it.

    Reading the TOML and the environment is the `config` crate's; a `Settings` here is
    what that crate makes of both, its defaults filled in. -/

namespace Config

open Keyed Checks
open Wire (trim isWhitespace isBlank)
open Publish (isHex64 isHex64_iff)
open Stats (Floats)

variable {F : Type}

/-! ## The file -/

/-- An `env:NAME` reference: the name of a variable, which is never blank. -/
structure EnvRef where
  name : String
  named : isBlank name = false

structure NostrSettings where
  relays : List String
  discoverRelays : Bool
  resumeOverlapSecs : Nat

structure IndexerSettings where
  instances : List String
  acceptUnknownInstances : Bool
  networks : List Wire.Network
  backfillFrom : Int

structure AssumptionSettings (F : Type) where
  devFeePercentageDefault : F
  devFeePercentage : Table String F

structure DatabaseSettings where
  url : String

structure ReportSettings where
  referenceCurrency : String

structure PublishSettings where
  relays : List String
  maxContentBytes : Nat
  nsec : Option EnvRef

/-- The whole of `settings.toml`. -/
structure Settings (F : Type) where
  nostr : NostrSettings
  indexer : IndexerSettings
  assumptions : AssumptionSettings F
  database : DatabaseSettings
  report : ReportSettings
  publish : PublishSettings

/-- A file with nothing in it: every default. -/
def Settings.default (A : Floats F) : Settings F where
  nostr := { relays := [], discoverRelays := false, resumeOverlapSecs := 3600 }
  indexer := { instances := [], acceptUnknownInstances := false, networks := [.mainnet],
               backfillFrom := 0 }
  assumptions := { devFeePercentageDefault := A.div (A.ofInt 3) (A.ofInt 10),
                   devFeePercentage := ∅ }
  database := { url := "sqlite://bestiario.db" }
  report := { referenceCurrency := "USD" }
  publish := { relays := [], maxContentBytes := 64 * 1024, nsec := none }

/-! ## What lies outside -/

/-- ASCII text. -/
def IsAscii (text : String) : Prop := ∀ c ∈ text.toList, c.toNat < 128

/-- The letter case of the standard library, and the key library's reading of a name: its
    key in hex, or why it is none. -/
structure Library where
  /-- `str::to_lowercase` and `str::to_uppercase`, which leave no ASCII letter in the
      other case and touch nothing else of ASCII text. -/
  lower : String → String
  upper : String → String
  /-- `PublicKey::from_bech32`, then `to_hex`. -/
  npub : String → Except String String
  lower_ascii : ∀ text, IsAscii text → (lower text).toList = text.toList.map Char.toLower
  lower_settled : ∀ text, ∀ c ∈ (lower text).toList, c.isUpper = false
  upper_ascii : ∀ text, IsAscii text → (upper text).toList = text.toList.map Char.toUpper
  upper_settled : ∀ text, ∀ c ∈ (upper text).toList, c.isLower = false
  npub_hex : ∀ text pubkey, npub text = .ok pubkey → isHex64 pubkey = true

/-! ## Errors -/

/-- A setting that parsed but cannot be acted on. -/
inductive ValidationError (F : Type) where
  | noRelays
  | relayNotWebsocket (url : String)
  | pubkeyLength (pubkey : String) (len : Nat)
  | pubkeyNotHex (pubkey : String) (found : Char)
  | pubkeyNotNpub (pubkey reason : String)
  | duplicateDevFeeOverride (pubkey : String) (spellings : List String)
  | nothingToIndex
  | noNetworks
  | negativeBackfillFrom (value : Int)
  | devFeePercentageOutOfRange (setting : String) (value : F)
  | databaseNotSqlite (url : String)
  | referenceCurrencyNotIso (code : String)
  | publishRelayNotWebsocket (url : String)
  | publishCeilingIsZero
  deriving DecidableEq

/-- What a relay list expects. -/
def websocketExpected : String :=
  "expected a websocket URL starting with `wss://` (or `ws://` for a local relay)"

/-- The message.  The three about a pubkey name `[indexer].instances` also where the
    pubkey is an override's. -/
def ValidationError.text (A : Floats F) : ValidationError F → String
  | .noRelays => "[nostr].relays is empty: at least one relay is required"
  | .relayNotWebsocket url => "[nostr].relays contains `" ++ url ++ "`: " ++ websocketExpected
  | .pubkeyLength pubkey len => "[indexer].instances contains `" ++ pubkey
      ++ "`: expected 64 hexadecimal characters, got " ++ toString len
  | .pubkeyNotHex pubkey found => "[indexer].instances contains `" ++ pubkey ++ "`: `"
      ++ found.toString ++ "` is not a hexadecimal character"
  | .pubkeyNotNpub pubkey reason => "[indexer].instances contains `" ++ pubkey
      ++ "`: not a valid npub (" ++ reason ++ ")"
  | .duplicateDevFeeOverride pubkey spellings =>
      "[assumptions.dev_fee_percentage] names `" ++ pubkey ++ "` more than once ("
        ++ ", ".intercalate spellings ++ "): keep a single entry per instance"
  | .nothingToIndex => "[indexer].instances is empty and accept_unknown_instances is false: "
      ++ "nothing would ever be indexed"
  | .noNetworks => "[indexer].networks is empty: at least one network is required"
  | .negativeBackfillFrom value => "[indexer].backfill_from is " ++ toString value
      ++ ": expected a unix timestamp, or 0 for everything"
  | .devFeePercentageOutOfRange setting value => setting ++ " is " ++ A.shortest value
      ++ ": expected a fraction greater than 0 and at most 1"
  | .databaseNotSqlite url => "[database].url is `" ++ url ++ "`: expected a `sqlite:` URL"
  | .referenceCurrencyNotIso code => "[report].reference_currency is `" ++ code
      ++ "`: expected a three-letter currency code"
  | .publishRelayNotWebsocket url =>
      "[publish].relays contains `" ++ url ++ "`: " ++ websocketExpected
  | .publishCeilingIsZero => "[publish].max_content_bytes is 0: a ceiling of zero would "
      ++ "refuse every document, including the index"

/-! ## References to the environment -/

/-- What is wrong with a reference. -/
inductive EnvRefError where
  | notAReference
  | namesNoVariable
  deriving DecidableEq

def EnvRefError.text : EnvRefError → String
  | .notAReference => "expected an environment-variable reference of the form `env:NAME`, "
      ++ "so that the secret itself is not written into the configuration file"
  | .namesNoVariable => "`env:` names no variable"

/-- Trimming ends at a character that is no white space. -/
theorem isBlank_trim (text : String) : isBlank (trim text) = isBlank text := by
  have hall : ∀ l : List Char,
      (l.dropWhile isWhitespace).all isWhitespace = l.all isWhitespace := by
    intro l
    induction l with
    | nil => rfl
    | cons c l ih =>
        by_cases hc : isWhitespace c = true
        · rw [List.dropWhile_cons_of_pos hc, List.all_cons, hc, Bool.true_and]
          exact ih
        · rw [List.dropWhile_cons_of_neg hc]
  rw [isBlank, isBlank, trim, String.toList_ofList, List.all_reverse, hall, List.all_reverse,
    hall]

/-- `EnvRef::deserialize`: anything but a reference is refused. -/
def EnvRef.deserialize (raw : String) : Except EnvRefError EnvRef :=
  if "env:".toList.isPrefixOf raw.toList then
    let name := String.ofList (raw.toList.drop 4)
    if h : isBlank name = true then .error .namesNoVariable
    else .ok { name := trim name,
               named := (isBlank_trim name).trans (Bool.eq_false_iff.mpr h) }
  else .error .notAReference

/-- **THE FILE HOLDS A NAME AND NEVER A KEY**: what is accepted is `env:` and a name. -/
theorem EnvRef.exists_deserialize_iff (raw : String) :
    (∃ reference, EnvRef.deserialize raw = .ok reference)
      ↔ ∃ name, raw = "env:" ++ name ∧ isBlank name = false := by
  constructor
  · rintro ⟨reference, h⟩
    rw [EnvRef.deserialize] at h
    by_cases hform : "env:".toList.isPrefixOf raw.toList = true
    · rw [if_pos hform] at h
      obtain ⟨rest, hrest⟩ := List.isPrefixOf_iff_prefix.mp hform
      refine ⟨String.ofList (raw.toList.drop 4), ?_, ?_⟩
      · have hdrop : raw.toList.drop 4 = rest := by
          rw [← hrest]
          rfl
        rw [hdrop, ← String.ofList_toList (s := raw), ← hrest, String.ofList_append,
          String.ofList_toList]
      · by_cases hblank : isBlank (String.ofList (raw.toList.drop 4)) = true
        · rw [dif_pos hblank] at h
          cases h
        · exact Bool.eq_false_iff.mpr hblank
    · rw [if_neg hform] at h
      cases h
  · rintro ⟨name, rfl, hname⟩
    have hform : "env:".toList.isPrefixOf ("env:" ++ name).toList = true := by
      rw [String.toList_append]
      exact List.isPrefixOf_iff_prefix.mpr (List.prefix_append _ _)
    have hnamed : ¬ isBlank (String.ofList (("env:" ++ name).toList.drop 4)) = true := by
      rw [String.toList_append]
      change ¬ isBlank (String.ofList name.toList) = true
      rw [String.ofList_toList]
      exact Bool.eq_false_iff.mp hname
    rw [EnvRef.deserialize, if_pos hform]
    exact ⟨_, dif_neg hnamed⟩

/-! ## Folding -/

/-- `char::is_ascii_hexdigit`. -/
def isAsciiHexdigit (c : Char) : Bool :=
  c.isDigit || (decide ('a' ≤ c) && decide (c ≤ 'f')) || (decide ('A' ≤ c) && decide (c ≤ 'F'))

/-- `looks_like_bech32`: letters that are not all hex digits, before the first `1`. -/
def looksLikeBech32 (value : String) : Bool :=
  let hrp := value.toList.takeWhile fun c => c != '1'
  value.toList.contains '1' && !hrp.isEmpty && hrp.all Char.isLower && !hrp.all isAsciiHexdigit

variable (W : Library) (A : Floats F)

/-- `canonical_pubkey`. -/
def canonicalPubkey (raw : String) : Except (ValidationError F) String :=
  let value := W.lower (trim raw)
  if looksLikeBech32 value = false then .ok value
  else
    match W.npub value with
    | .ok pubkey => .ok pubkey
    | .error reason => .error (.pubkeyNotNpub value reason)

/-- `canonical_dev_fee_overrides`. -/
def canonicalDevFeeOverrides (raw : Table String F) :
    Except (ValidationError F) (Table String F) := do
  let folded ← refold (canonicalPubkey W) trim raw.toList
  match folded.collision with
  | some (pubkey, spellings) => .error (.duplicateDevFeeOverride pubkey spellings)
  | none => .ok folded.values

/-- `normalized`. -/
def normalized (s : Settings F) : Except (ValidationError F) (Settings F) := do
  let instances ← s.indexer.instances.mapM (canonicalPubkey W)
  let devFeePercentage ← canonicalDevFeeOverrides W s.assumptions.devFeePercentage
  return { s with
    indexer := { s.indexer with instances := instances }
    assumptions := { s.assumptions with devFeePercentage := devFeePercentage }
    report := { referenceCurrency := W.upper (trim s.report.referenceCurrency) }
    publish := { s.publish with
      relays := if s.publish.relays.isEmpty then s.nostr.relays else s.publish.relays } }

/-! ## Checks -/

/-- What both relay lists accept. -/
def isWebsocket (url : String) : Bool :=
  "wss://".toList.isPrefixOf url.toList || "ws://".toList.isPrefixOf url.toList

/-- `validate_relays`. -/
def validateRelays (s : Settings F) : Except (ValidationError F) Unit := do
  ensure (s.nostr.relays ≠ []) .noRelays
  s.nostr.relays.forM fun url => ensure (isWebsocket url = true) (.relayNotWebsocket url)

/-- `validate_pubkey`: the length is one of bytes. -/
def validatePubkey (pubkey : String) : Except (ValidationError F) Unit :=
  if pubkey.utf8ByteSize ≠ 64 then .error (.pubkeyLength pubkey pubkey.utf8ByteSize)
  else
    match pubkey.toList.find? fun c => !isAsciiHexdigit c with
    | some found => .error (.pubkeyNotHex pubkey found)
    | none => .ok ()

/-- `validate_indexer`. -/
def validateIndexer (s : Settings F) : Except (ValidationError F) Unit := do
  s.indexer.instances.forM validatePubkey
  ensure (s.indexer.instances ≠ [] ∨ s.indexer.acceptUnknownInstances = true) .nothingToIndex
  ensure (s.indexer.networks ≠ []) .noNetworks
  ensure (0 ≤ s.indexer.backfillFrom) (.negativeBackfillFrom s.indexer.backfillFrom)

/-- `value > 0.0 && value <= 1.0`. -/
def isFraction (value : F) : Bool :=
  A.lt (A.ofInt 0) value && (A.lt value (A.ofInt 1) || A.eq value (A.ofInt 1))

/-- `validate_fraction`. -/
def validateFraction (setting : String) (value : F) : Except (ValidationError F) Unit :=
  ensure (isFraction A value = true) (.devFeePercentageOutOfRange setting value)

/-- How an error names the global default, and an override. -/
def defaultSetting : String := "[assumptions].dev_fee_percentage_default"

def overrideSetting (pubkey : String) : String :=
  "[assumptions.dev_fee_percentage].\"" ++ pubkey ++ "\""

/-- The check of one override. -/
def validateOverride (entry : String × F) : Except (ValidationError F) Unit := do
  validatePubkey entry.1
  validateFraction A (overrideSetting entry.1) entry.2

/-- `validate_assumptions`. -/
def validateAssumptions (s : Settings F) : Except (ValidationError F) Unit := do
  validateFraction A defaultSetting s.assumptions.devFeePercentageDefault
  s.assumptions.devFeePercentage.toList.forM (validateOverride A)

/-- `validate_database`. -/
def validateDatabase (s : Settings F) : Except (ValidationError F) Unit :=
  ensure ("sqlite:".toList.isPrefixOf s.database.url.toList = true)
    (.databaseNotSqlite s.database.url)

/-- Three bytes, letters all of them. -/
def isCode (code : String) : Bool := code.utf8ByteSize == 3 && code.toList.all Char.isAlpha

/-- `validate_report`. -/
def validateReport (s : Settings F) : Except (ValidationError F) Unit :=
  ensure (isCode s.report.referenceCurrency = true)
    (.referenceCurrencyNotIso s.report.referenceCurrency)

/-- `validate_publish`. -/
def validatePublish (s : Settings F) : Except (ValidationError F) Unit := do
  s.publish.relays.forM fun url =>
    ensure (isWebsocket url = true) (.publishRelayNotWebsocket url)
  ensure (s.publish.maxContentBytes ≠ 0) .publishCeilingIsZero

/-- `validate`. -/
def validate (s : Settings F) : Except (ValidationError F) Unit := do
  validateRelays s
  validateIndexer s
  validateAssumptions A s
  validateDatabase s
  validateReport s
  validatePublish s

/-- `from_toml_str` and `load_with`, past the parser: `normalized`, then `validated`. -/
def load (raw : Settings F) : Except (ValidationError F) (Settings F) := do
  let s ← normalized W raw
  validate A s
  return s

/-- `dev_fee_percentage_for`. -/
def AssumptionSettings.devFeePercentageFor (s : AssumptionSettings F) (pubkey : String) : F :=
  (s.devFeePercentage[W.lower pubkey]?).getD s.devFeePercentageDefault

end Config
