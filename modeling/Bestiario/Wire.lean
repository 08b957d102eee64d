import Bestiario.Lib.Table

/-! # Events on the wire, and the tag readers every parser shares

    A Nostr event as the indexer receives it, the crates it is read with, and
    `ingest/parse/mod.rs`: the functions that turn a tag into a value or into
    an error naming the tag.

    Ids and pubkeys are carried as the lowercase hex they are stored under.
    A clock is the `u64` of the wire; `asI64` is the narrowing `as i64` the
    archive stores. -/

namespace Wire

/-- A signed event. -/
structure Event where
  id : String
  pubkey : String
  createdAt : UInt64
  kind : UInt16
  tags : List (List String)
  content : String
  sig : String
  deriving DecidableEq, Repr

/-- Everything the id is a digest of. -/
def Event.body (e : Event) :
    String × UInt64 × UInt16 × List (List String) × String :=
  (e.pubkey, e.createdAt, e.kind, e.tags, e.content)

/-- `as i64` on a `u64`: the two's-complement reading of the same bits. -/
def asI64 (n : UInt64) : Int := n.toBitVec.toInt

/-- An `i64` result in a release build, where arithmetic wraps. -/
def wrapI64 (n : Int) : Int := (BitVec.ofInt 64 n).toInt

theorem wrapI64_of_fits {n : Int} (hlo : -2 ^ 63 ≤ n) (hhi : n < 2 ^ 63) :
    wrapI64 n = n := by
  rw [wrapI64, BitVec.toInt_ofInt, Int.bmod]
  omega

theorem wrapI64_of_over {n : Int} (hlo : 2 ^ 63 ≤ n) (hhi : n < 2 ^ 64) :
    wrapI64 n = n - 2 ^ 64 := by
  rw [wrapI64, BitVec.toInt_ofInt, Int.bmod]
  omega

theorem wrapI64_of_under {n : Int} (hlo : -2 ^ 64 < n) (hhi : n < -2 ^ 63) :
    wrapI64 n = n + 2 ^ 64 := by
  rw [wrapI64, BitVec.toInt_ofInt, Int.bmod]
  omega

theorem asI64_fits (n : UInt64) : -2 ^ 63 ≤ asI64 n ∧ asI64 n < 2 ^ 63 :=
  ⟨BitVec.le_toInt n.toBitVec, BitVec.toInt_lt⟩

/-- The event's own clock, as every table stores it. -/
def Event.at (e : Event) : Int := asI64 e.createdAt

/-! ## Kinds -/

/-- `parse::order::KIND`. -/
def orderKind : UInt16 := 38383

/-- `parse::dev_fee::KIND`. -/
def devFeeKind : UInt16 := 8383

/-- `parse::dispute::KIND`. -/
def disputeKind : UInt16 := 38386

/-- `parse::info::KIND`. -/
def infoKind : UInt16 := 38385

/-- `parse::rates::KIND`. -/
def ratesKind : UInt16 := 30078

/-- `parse::relay_list::KIND`. -/
def relayListKind : UInt16 := 10002

/-- `INDEXED_KINDS`, in the order they are walked. -/
def indexedKinds : List UInt16 :=
  [orderKind, devFeeKind, disputeKind, infoKind, ratesKind, relayListKind]

/-- `SINGLE_COPY_KINDS`: the kinds a relay holds exactly one of per publisher. -/
def singleCopyKinds : List UInt16 := [infoKind, ratesKind, relayListKind]

/-- `PLATFORM_TAGGED`: the kinds that carry a `y` tag. -/
def platformTagged : List UInt16 := [orderKind, devFeeKind, disputeKind, infoKind]

/-- `UNTAGGED_KINDS`: the kinds the platform filter cannot vouch for. -/
def untaggedKinds : List UInt16 := [ratesKind, relayListKind]

/-- `NETWORK_TAGGED`: the kinds that carry a `network` tag. -/
def networkTagged : List UInt16 := [orderKind, devFeeKind]

/-! ## Text -/

/-- `char::is_whitespace`: the Unicode `White_Space` property. -/
def isWhitespace (c : Char) : Bool :=
  let n := c.toNat
  (9 ≤ n && n ≤ 13) || n == 0x20 || n == 0x85 || n == 0xA0 || n == 0x1680
    || (0x2000 ≤ n && n ≤ 0x200A) || n == 0x2028 || n == 0x2029 || n == 0x202F
    || n == 0x205F || n == 0x3000

/-- `str::trim`. -/
def trim (s : String) : String :=
  String.ofList
    ((s.toList.dropWhile isWhitespace).reverse.dropWhile isWhitespace).reverse

/-- `str.trim().is_empty()`. -/
def isBlank (s : String) : Bool := s.toList.all isWhitespace

/-- The number a run of ASCII digits spells; `none` for anything else. -/
def parseDigits : List Char → Option Nat
  | [] => none
  | cs =>
      if cs.all Char.isDigit then
        some (cs.foldl (fun n c => 10 * n + (c.toNat - 48)) 0)
      else none

/-- `i64::from_str`: an optional sign, then digits, within range. -/
def parseI64 (s : String) : Option Int :=
  let value := match s.toList with
    | '-' :: cs => (parseDigits cs).map fun n => -(n : Int)
    | '+' :: cs => (parseDigits cs).map fun n => (n : Int)
    | cs => (parseDigits cs).map fun n => (n : Int)
  value.filter fun n => -(2 ^ 63) ≤ n && n < 2 ^ 63

/-! ## Networks -/

/-- The values the `network` tag can carry. -/
inductive Network where
  | mainnet
  | testnet
  | signet
  | regtest
  deriving DecidableEq, Repr

/-- The wire form. -/
def Network.asStr : Network → String
  | .mainnet => "mainnet"
  | .testnet => "testnet"
  | .signet => "signet"
  | .regtest => "regtest"

/-- The variant `wire` names, if it names one. -/
def Network.fromWire : String → Option Network
  | "mainnet" => some .mainnet
  | "testnet" => some .testnet
  | "signet" => some .signet
  | "regtest" => some .regtest
  | _ => none

/-! ## The crates the indexer is built on -/

/-- One price of a rate table: the JSON text it was published as, and
    `Value::as_f64` of it. -/
structure Price (F : Type) where
  text : String
  asF64 : Option F

/-- What the indexer takes from outside the repository, `F` standing for
    `f64`.  The one law is the one verification rests on: an event's id is the
    SHA-256 of its body, so two verified events with one id have one body. -/
structure Externals (F : Type) where
  /-- `Event::verify().is_ok()`. -/
  verify : Event → Bool
  /-- `f64::from_str`. -/
  parseF64 : String → Option F
  isFinite : F → Bool
  isNan : F → Bool
  lt : F → F → Bool
  zero : F
  /-- `f64::to_string`. -/
  showF64 : F → String
  /-- `Uuid::parse_str`, rendered in its canonical form. -/
  parseUuid : String → Option String
  /-- `RelayUrl::parse`, rendered without its trailing slash. -/
  parseRelayUrl : String → Option String
  /-- `serde_json::from_str::<Content>` over a rate sheet: the reason it is
      not one, or its `BTC` table in key order. -/
  readContent : String → Except String (Option (List (String × Price F)))
  verify_body : ∀ e e', verify e = true → verify e' = true → e.id = e'.id →
    e.body = e'.body

/-- The interface at integers, for running the model: the events of `known`
    carry a valid signature and no other, and `sheets` are the rate sheets
    `serde_json` can read. -/
def Externals.over (known : List Event) (h : (known.map Event.id).Nodup)
    (sheets : List (String × List (String × Int))) : Externals Int where
  verify e := decide (e ∈ known)
  parseF64 := parseI64
  isFinite _ := true
  isNan _ := false
  lt a b := decide (a < b)
  zero := 0
  showF64 := toString
  parseUuid value := if value.toList.length = 36 then some value else none
  parseRelayUrl url := if "wss://".toList.isPrefixOf url.toList then some url else none
  readContent content :=
    match sheets.lookup content with
    | some table => .ok (some (table.map fun (code, n) => (code, ⟨toString n, some n⟩)))
    | none => .error "expected value"
  verify_body := by
    intro e e' he he' hid
    rw [List.inj_on_of_nodup_map h (of_decide_eq_true he) (of_decide_eq_true he') hid]

variable {F : Type}

/-! ## Errors -/

/-- Why an event could not be turned into a typed value. -/
inductive ParseError (F : Type) where
  | wrongKind (expected found : UInt16)
  | missingTag (tag : String)
  | emptyTag (tag : String)
  | unknownValue (tag value expected : String)
  | notANumber (tag value expected : String)
  | wrongValueCount (tag : String) (count : Nat) (expected : String)
  | repeatedTag (tag : String) (count : Nat)
  | blankValue (tag expected : String)
  | outOfRange (tag value expected : String)
  | invertedRange (tag : String) (min max : F)
  | invalidContent (reason : String)
  deriving DecidableEq

/-- A computation that succeeds went through every step it is made of. -/
theorem bind_eq_ok {ε α β : Type} {x : Except ε α} {f : α → Except ε β} {r : β} :
    (x >>= f) = .ok r ↔ ∃ a, x = .ok a ∧ f a = .ok r := by
  constructor
  · intro h
    cases x with
    | error err => exact nomatch h
    | ok a => exact ⟨a, rfl, h⟩
  · rintro ⟨a, rfl, h⟩
    exact h

/-! ## Tag readers -/

/-- `repeated_tag_values`: the values of every occurrence of `name`. -/
def repeatedTagValues (e : Event) (name : String) : List (List String) :=
  (e.tags.filter fun tag => tag.head? == some name).map List.tail

/-- `tag_values`: the values of `name`, or `none`; a repeat is an error. -/
def tagValues (e : Event) (name : String) :
    Except (ParseError F) (Option (List String)) :=
  match repeatedTagValues e name with
  | [] => .ok none
  | [values] => .ok (some values)
  | many => .error (.repeatedTag name many.length)

/-- `non_blank`. -/
def nonBlank (tag value expected : String) : Except (ParseError F) String :=
  if isBlank value then .error (.blankValue tag expected) else .ok value

/-- `required`: the single, non-blank value of a required tag. -/
def required (e : Event) (tag : String) : Except (ParseError F) String := do
  match ← tagValues e tag with
  | none => .error (.missingTag tag)
  | some [] => .error (.emptyTag tag)
  | some [value] => nonBlank tag value "a value"
  | some values => .error (.wrongValueCount tag values.length "exactly one value")

/-- `optional`: the single value of a tag that may be absent or blank. -/
def optional (e : Event) (tag : String) :
    Except (ParseError F) (Option String) := do
  match ← tagValues e tag with
  | none => .ok none
  | some [] => .ok none
  | some [value] => .ok ((some value).filter fun v => !isBlank v)
  | some values => .error (.wrongValueCount tag values.length "exactly one value")

/-- `number`, at whichever `FromStr` the caller asks for. -/
def number {T : Type} (fromStr : String → Option T) (tag value expected : String) :
    Except (ParseError F) T :=
  match fromStr value with
  | some n => .ok n
  | none => .error (.notANumber tag value expected)

/-- `non_negative` at `i64`. -/
def nonNegative (tag : String) (value : Int) (expected : String) :
    Except (ParseError F) Int :=
  if value < 0 then .error (.outOfRange tag (toString value) expected) else .ok value

theorem parseI64_lt {s : String} {n : Int} (h : parseI64 s = some n) : n < 2 ^ 63 := by
  rw [parseI64] at h
  have hrange := (Option.filter_eq_some_iff.mp h).2
  simp only [Bool.and_eq_true, decide_eq_true_iff] at hrange
  exact hrange.2

/-- A number that is read and is not negative fits a word. -/
theorem nonNegative_bounds {tag value expected : String} {n t : Int}
    (hn : number (F := F) parseI64 tag value expected = .ok n)
    (ht : nonNegative (F := F) tag n expected = .ok t) : 0 ≤ t ∧ t < 2 ^ 63 := by
  have hread : parseI64 value = some n := by
    rw [number] at hn
    cases hv : parseI64 value with
    | none =>
        rw [hv] at hn
        cases hn
    | some v =>
        rw [hv] at hn
        cases hn
        rfl
  rw [nonNegative] at ht
  by_cases hneg : n < 0
  · rw [if_pos hneg] at ht
    cases ht
  · rw [if_neg hneg] at ht
    cases ht
    exact ⟨not_lt.mp hneg, parseI64_lt hread⟩

/-- `non_negative` at `f64`. -/
def nonNegativeF64 (X : Externals F) (tag : String) (value : F) (expected : String) :
    Except (ParseError F) F :=
  if X.lt value X.zero then .error (.outOfRange tag (X.showF64 value) expected)
  else .ok value

/-- `expect_kind`. -/
def expectKind (e : Event) (expected : UInt16) : Except (ParseError F) Unit :=
  if e.kind = expected then .ok () else .error (.wrongKind expected e.kind)

theorem expectKind_eq_ok {e : Event} {expected : UInt16} {u : Unit}
    (h : expectKind (F := F) e expected = .ok u) : e.kind = expected := by
  rw [expectKind] at h
  by_cases hk : e.kind = expected
  · exact hk
  · rw [if_neg hk] at h
    exact nomatch h

/-- `finite`: a tag that has to be a finite number. -/
def finite (X : Externals F) (tag value expected : String) :
    Except (ParseError F) F := do
  let parsed ← number X.parseF64 tag value expected
  if X.isFinite parsed then .ok parsed else .error (.notANumber tag value expected)

/-- `uuid`: a tag that has to be a UUID, in its canonical form. -/
def uuid (X : Externals F) (tag value : String) : Except (ParseError F) String :=
  match X.parseUuid value with
  | some id => .ok id
  | none => .error (.unknownValue tag value "a UUID")

/-- `expect_discriminator`: the `z` tag of a kind that publishes one. -/
def expectDiscriminator (e : Event) (expected : String) :
    Except (ParseError F) Unit := do
  let found ← required e "z"
  if found = expected then .ok () else .error (.unknownValue "z" found expected)

/-- `published_at`: the creation time on orders and disputes, under its own
    name or the legacy `created_at`. -/
def publishedAt (e : Event) : Except (ParseError F) (Option Int) := do
  match ← optional e "published_at" with
  | some value => do
      let t ← number parseI64 "published_at" value "a unix timestamp"
      return some (← nonNegative "published_at" t "a unix timestamp")
  | none =>
      match ← optional e "created_at" with
      | some value => do
          let t ← number parseI64 "created_at" value "a unix timestamp"
          return some (← nonNegative "created_at" t "a unix timestamp")
      | none => return none

/-- A creation time on an order or a dispute is a word, and not before the epoch. -/
theorem publishedAt_bounds {e : Event} {t : Int}
    (h : publishedAt (F := F) e = .ok (some t)) : 0 ≤ t ∧ t < 2 ^ 63 := by
  simp only [publishedAt, bind_eq_ok] at h
  obtain ⟨tag, -, h⟩ := h
  cases tag with
  | some value =>
      simp only [bind_eq_ok] at h
      obtain ⟨n, hn, u, hu, h⟩ := h
      cases h
      exact nonNegative_bounds hn hu
  | none =>
      simp only [bind_eq_ok] at h
      obtain ⟨legacy, -, h⟩ := h
      cases legacy with
      | some value =>
          simp only [bind_eq_ok] at h
          obtain ⟨n, hn, u, hu, h⟩ := h
          cases h
          exact nonNegative_bounds hn hu
      | none => cases h

/-- `optional_network`. -/
def optionalNetwork (e : Event) : Except (ParseError F) (Option Network) := do
  match ← optional e "network" with
  | none => return none
  | some value =>
      match Network.fromWire value with
      | some network => return some network
      | none => .error (.unknownValue "network" value
          "`mainnet`, `testnet`, `signet` or `regtest`")

/-! ## The `y` tag -/

/-- `MOSTRO`. -/
def mostro : String := "mostro"

/-- `y`: the values of the single `y` tag. -/
def yTag (e : Event) : Option (List String) :=
  match tagValues (F := Unit) e "y" with
  | .ok values => values
  | .error _ => none

/-- `platform`: the first value of `y`. -/
def platform (e : Event) : Option String := (yTag e).bind List.head?

/-- `is_mostro`. -/
def isMostro (e : Event) : Bool := platform e == some mostro

/-- `instance_name`: the second value of `y`, trimmed; blank is no name. -/
def instanceName (e : Event) : Option String :=
  ((yTag e).bind fun values => values[1]?.map trim).filter fun name => !name.isEmpty

/-- The `d` tag as `events.d_tag` stores it: `None` when absent or repeated. -/
def dTag (e : Event) : Option String :=
  match tagValues (F := Unit) e "d" with
  | .ok values => values.bind List.head?
  | .error _ => none

end Wire
