import Bestiario.Wire
import Bestiario.Window

/-! # The `d` tag

    `crates/stats/src/publish/address.rs`: a document's stable name, parsed and
    rendered.  A year the grammar can spell, a month of the year, a bucket that
    fits its resolution and a scope the grammar can name are types, so that an
    address renders into nothing `parse` would refuse.

    Both directions go through the SEGMENTS between colons: rendering joins
    them, parsing splits there, and no segment of an address holds a colon. -/

namespace Publish

open Calendar Timestamp
open Wire (bind_eq_ok)

/-! ## Words -/

/-- The reports a document can carry. -/
inductive Report where
  | summary
  | orders
  | volume
  | market
  | disputes
  | devFees
  | instances
  | compare
  deriving DecidableEq, Repr

namespace Report

def all : List Report :=
  [.summary, .orders, .volume, .market, .disputes, .devFees, .instances, .compare]

def asStr : Report → String
  | .summary => "summary"
  | .orders => "orders"
  | .volume => "volume"
  | .market => "market"
  | .disputes => "disputes"
  | .devFees => "dev-fees"
  | .instances => "instances"
  | .compare => "compare"

def parse (text : String) : Option Report := all.find? fun report => report.asStr == text

end Report

/-- The windows a window document is computed over. -/
inductive Window where
  | hours24
  | days7
  | days30
  | days90
  | all
  deriving DecidableEq, Repr

namespace Window

def every : List Window := [.hours24, .days7, .days30, .days90, .all]

def asStr : Window → String
  | .hours24 => "24h"
  | .days7 => "7d"
  | .days30 => "30d"
  | .days90 => "90d"
  | .all => "all"

def parse (text : String) : Option Window := every.find? fun window => window.asStr == text

end Window

/-- The bucket size of a series partition. -/
inductive Resolution where
  | daily
  | weekly
  | monthly
  deriving DecidableEq, Repr

namespace Resolution

def all : List Resolution := [.daily, .weekly, .monthly]

def asStr : Resolution → String
  | .daily => "daily"
  | .weekly => "weekly"
  | .monthly => "monthly"

def parse (text : String) : Option Resolution :=
  all.find? fun resolution => resolution.asStr == text

end Resolution

/-! ## Buckets -/

/-- A year four digits can write. -/
structure Year where
  get : Int
  spelled : 0 ≤ get ∧ get ≤ 9999
  deriving DecidableEq

def Year.new (year : Int) : Option Year :=
  if h : 0 ≤ year ∧ year ≤ 9999 then some ⟨year, h⟩ else none

def Year.toString (year : Year) : String := String.ofList (pad 4 year.get.toNat)

/-- A month of the year. -/
structure Month where
  get : Int
  ofYear : 1 ≤ get ∧ get ≤ 12
  deriving DecidableEq

def Month.new (month : Int) : Option Month :=
  if h : 1 ≤ month ∧ month ≤ 12 then some ⟨month, h⟩ else none

def Month.toString (month : Month) : String := String.ofList (pad 2 month.get.toNat)

/-- `fixed_digits`: exactly so many digits, as a number. -/
def fixedDigits (text : String) (digits : Nat) : Option Nat :=
  match number digits text.toList with
  | some (n, []) => some n
  | _ => none

/-- The year four digits spell. -/
def year (text : String) : Option Year := (fixedDigits text 4).bind fun n => Year.new n

/-- The span one series partition covers. -/
inductive Bucket where
  | month (year : Year) (month : Month)
  | year (year : Year)
  deriving DecidableEq

namespace Bucket

def toString : Bucket → String
  | .month y m => y.toString ++ "-" ++ m.toString
  | .year y => y.toString

/-- The first of a month, or the end of time where there is none. -/
def first (year month : Int) : Int := (Stats.withYmd year month 1).getD (2 ^ 63 - 1)

/-- The whole month or year, half-open. -/
def window : Bucket → Stats.Window
  | .month y m =>
      if m.get = 12 then ⟨first y.get 12, first (y.get + 1) 1⟩
      else ⟨first y.get m.get, first y.get (m.get + 1)⟩
  | .year y => ⟨first y.get 1, first (y.get + 1) 1⟩

/-- Whether this bucket has the shape `resolution` calls for. -/
def fits : Bucket → Resolution → Bool
  | .month _ _, .daily => true
  | .month _ _, .weekly => true
  | .year _, .monthly => true
  | _, _ => false

/-- `split_once('-')`: what stands before the first dash and what after it. -/
def splitOnce : List Char → Option (List Char × List Char)
  | [] => none
  | c :: s => if c = '-' then some ([], s) else (splitOnce s).map fun p => (c :: p.1, p.2)

def parse (text : String) : Option Bucket :=
  match splitOnce text.toList with
  | none => (Publish.year text).map .year
  | some (yearText, monthText) => do
      let year ← Publish.year (String.ofList yearText)
      let month ← (fixedDigits (String.ofList monthText) 2).bind fun n => Month.new n
      some (.month year month)

end Bucket

/-- A resolution and a bucket that fit each other. -/
structure Partition where
  resolution : Resolution
  bucket : Bucket
  fits : bucket.fits resolution = true
  deriving DecidableEq

def Partition.new (resolution : Resolution) (bucket : Bucket) : Option Partition :=
  if h : bucket.fits resolution = true then some ⟨resolution, bucket, h⟩ else none

def Partition.window (partition : Partition) : Stats.Window := partition.bucket.window

/-! ## Scopes -/

/-- The networks a scope may name. -/
def networks : List String := ["mainnet", "testnet", "signet", "regtest"]

/-- 64 lowercase hex characters and nothing else. -/
def isHex64 (pubkey : String) : Bool :=
  pubkey.toList.length == 64
    && pubkey.toList.all fun c => c.isDigit || (decide ('a' ≤ c) && decide (c ≤ 'f'))

/-- What a document is narrowed to. -/
inductive Scope where
  | instance' (pubkey : String) (h : isHex64 pubkey = true)
  | network (network : String) (h : networks.contains network = true)
  deriving DecidableEq

namespace Scope

/-- `Scope::instance`. -/
def ofInstance (pubkey : String) : Option Scope :=
  if h : isHex64 pubkey = true then some (.instance' pubkey h) else none

/-- `Scope::network`. -/
def ofNetwork (network : String) : Option Scope :=
  if h : networks.contains network = true then some (.network network h) else none

def parse (kind value : String) : Option Scope :=
  if kind = "i" then ofInstance value else if kind = "n" then ofNetwork value else none

def toString : Scope → String
  | .instance' pubkey _ => ":i:" ++ pubkey
  | .network name _ => ":n:" ++ name

end Scope

/-! ## Addresses -/

/-- A document's address: the parsed form of its `d` tag. -/
inductive Address where
  | index (year : Option Year)
  | window (report : Report) (window : Window) (scope : Option Scope)
  | series (report : Report) (partition : Partition) (scope : Option Scope)
  deriving DecidableEq

/-- Why a string is not an address: the part that was wrong. -/
inductive ParseError where
  | empty
  | report (input found : String)
  | window (input found : String)
  | resolution (input found : String)
  | bucket (input found resolution : String)
  | year (input found : String)
  | scope (input found : String)
  | shape (input : String) (found : Nat) (expected : String)
  deriving DecidableEq

/-- The trailing scope segments, or nothing. -/
def rendered (scope : Option Scope) : String := scope.elim "" Scope.toString

namespace Address

def toString : Address → String
  | .index none => "index"
  | .index (some year) => "index:" ++ year.toString
  | .window r w scope => r.asStr ++ ":" ++ w.asStr ++ rendered scope
  | .series r p scope =>
      "series:" ++ r.asStr ++ ":" ++ p.resolution.asStr ++ ":" ++ p.bucket.toString
        ++ rendered scope

/-- `text.split(':')`: empty segments kept. -/
def segments (text : String) : List String := (text.toList.splitOn ':').map String.ofList

/-- The optional trailing scope, from what followed the fixed segments. -/
def scope (input : String) (rest : List String) (expected : String) :
    Except ParseError (Option Scope) :=
  match rest with
  | [] => .ok none
  | [kind, value] =>
      match Scope.parse kind value with
      | some scope => .ok (some scope)
      | none => .error (.scope input (kind ++ ":" ++ value))
  | _ => .error (.shape input (segments input).length expected)

/-- `Option::ok_or`. -/
def okOr {α : Type} (value : Option α) (error : ParseError) : Except ParseError α :=
  match value with
  | some value => .ok value
  | none => .error error

/-- `["series", report, resolution, bucket, rest @ ..]`. -/
def parseSeries (input report resolution bucket : String) (rest : List String) :
    Except ParseError Address := do
  let report ← okOr (Report.parse report) (.report input report)
  let resolution ← okOr (Resolution.parse resolution) (.resolution input resolution)
  let partition ← okOr ((Bucket.parse bucket).bind (Partition.new resolution))
    (.bucket input bucket resolution.asStr)
  let scope ← scope input rest "4 or 6"
  .ok (.series report partition scope)

/-- `[report, window, rest @ ..]`. -/
def parseWindow (input report window : String) (rest : List String) :
    Except ParseError Address := do
  let report ← okOr (Report.parse report) (.report input report)
  let window ← okOr (Window.parse window) (.window input window)
  let scope ← scope input rest "2 or 4"
  .ok (.window report window scope)

/-- `["index", year]`. -/
def parseIndex (input text : String) : Except ParseError Address := do
  let year ← okOr (Publish.year text) (.year input text)
  .ok (.index (some year))

/-- The address `text` names, or why it names none. -/
def parse (text : String) : Except ParseError Address :=
  if text = "" then .error .empty
  else
    match segments text with
    | first :: second :: rest =>
        if first = "index" ∧ rest = [] then parseIndex text second
        else if first = "series" then
          match rest with
          | resolution :: bucket :: rest => parseSeries text second resolution bucket rest
          | _ => parseWindow text first second rest
        else parseWindow text first second rest
    | [only] => if only = "index" then .ok (.index none) else .error (.report text text)
    | [] => .error (.report text text)

end Address

/-! ## Words read back -/

theorem Report.parse_eq_some {text : String} {report : Report} :
    Report.parse text = some report ↔ report.asStr = text := by
  constructor
  · intro h
    exact eq_of_beq (List.find?_some (p := fun report : Report => report.asStr == text) h)
  · rintro rfl
    cases report <;> decide

theorem Window.parse_eq_some {text : String} {window : Window} :
    Window.parse text = some window ↔ window.asStr = text := by
  constructor
  · intro h
    exact eq_of_beq (List.find?_some (p := fun window : Window => window.asStr == text) h)
  · rintro rfl
    cases window <;> decide

theorem Resolution.parse_eq_some {text : String} {resolution : Resolution} :
    Resolution.parse text = some resolution ↔ resolution.asStr = text := by
  constructor
  · intro h
    exact eq_of_beq
      (List.find?_some (p := fun resolution : Resolution => resolution.asStr == text) h)
  · rintro rfl
    cases resolution <;> decide

/-- The digits of a number and nothing else. -/
theorem fixedDigits_eq_some {text : String} {digits n : Nat} :
    fixedDigits text digits = some n ↔ n < 10 ^ digits ∧ text = String.ofList (pad digits n) := by
  rw [fixedDigits]
  constructor
  · intro h
    cases hn : number digits text.toList with
    | none =>
        rw [hn] at h
        cases h
    | some read =>
        obtain ⟨m, rest⟩ := read
        rw [hn] at h
        cases rest with
        | cons c rest => cases h
        | nil =>
            cases h
            obtain ⟨hlt, htext⟩ := number_eq_some hn
            rw [List.append_nil] at htext
            exact ⟨hlt, by rw [← htext, String.ofList_toList]⟩
  · rintro ⟨hlt, rfl⟩
    have hread := number_pad [] hlt
    rw [List.append_nil] at hread
    rw [String.toList_ofList, hread]

theorem year_eq_some {text : String} {y : Year} :
    year text = some y ↔ text = y.toString := by
  rw [year, Option.bind_eq_some_iff]
  constructor
  · rintro ⟨n, hn, hy⟩
    obtain ⟨-, htext⟩ := fixedDigits_eq_some.mp hn
    rw [Year.new] at hy
    split at hy
    · cases hy
      exact htext
    · cases hy
  · rintro rfl
    have hspelled := y.spelled
    refine ⟨y.get.toNat, fixedDigits_eq_some.mpr ⟨by omega, rfl⟩, ?_⟩
    have hget : (y.get.toNat : Int) = y.get := Int.toNat_of_nonneg hspelled.1
    rw [Year.new, hget, dif_pos hspelled]

theorem month_eq_some {text : String} {m : Month} :
    ((fixedDigits text 2).bind fun n => Month.new n) = some m ↔ text = m.toString := by
  rw [Option.bind_eq_some_iff]
  constructor
  · rintro ⟨n, hn, hm⟩
    obtain ⟨-, htext⟩ := fixedDigits_eq_some.mp hn
    rw [Month.new] at hm
    split at hm
    · cases hm
      exact htext
    · cases hm
  · rintro rfl
    have hof := m.ofYear
    refine ⟨m.get.toNat, fixedDigits_eq_some.mpr ⟨by omega, rfl⟩, ?_⟩
    have hget : (m.get.toNat : Int) = m.get := Int.toNat_of_nonneg (by omega)
    rw [Month.new, hget, dif_pos hof]

/-! ## Buckets read back -/

theorem splitOnce_eq_some {s a b : List Char} :
    Bucket.splitOnce s = some (a, b) ↔ s = a ++ '-' :: b ∧ '-' ∉ a := by
  induction s generalizing a with
  | nil =>
      rw [Bucket.splitOnce]
      constructor
      · intro h
        cases h
      · rintro ⟨h, -⟩
        cases a <;> cases h
  | cons c s ih =>
      rw [Bucket.splitOnce]
      by_cases hc : c = '-'
      · subst hc
        rw [if_pos rfl]
        constructor
        · intro h
          cases h
          exact ⟨rfl, List.not_mem_nil⟩
        · rintro ⟨h, hno⟩
          cases a with
          | nil =>
              cases h
              rfl
          | cons d a =>
              cases h
              exact absurd List.mem_cons_self hno
      · rw [if_neg hc, Option.map_eq_some_iff]
        constructor
        · rintro ⟨⟨a', b'⟩, hsplit, h⟩
          cases h
          obtain ⟨rfl, hno⟩ := ih.mp hsplit
          refine ⟨rfl, fun hmem => ?_⟩
          rcases List.mem_cons.mp hmem with heq | hmem
          · exact hc heq.symm
          · exact hno hmem
        · rintro ⟨h, hno⟩
          cases a with
          | nil =>
              cases h
              exact absurd rfl hc
          | cons d a =>
              cases h
              refine ⟨(a, b), ih.mpr ⟨rfl, fun hmem => hno (List.mem_cons_of_mem _ hmem)⟩, rfl⟩

theorem splitOnce_eq_none {s : List Char} (h : '-' ∉ s) : Bucket.splitOnce s = none := by
  cases hsplit : Bucket.splitOnce s with
  | none => rfl
  | some parts =>
      obtain ⟨a, b⟩ := parts
      obtain ⟨rfl, -⟩ := splitOnce_eq_some.mp hsplit
      exact absurd (List.mem_append_right a List.mem_cons_self) h

theorem notMem_pad {c : Char} (h : c.isDigit = false) (width n : Nat) : c ∉ pad width n := by
  intro hmem
  rw [pad_isDigit width n c hmem] at h
  cases h

/-- **A BUCKET IS READ FROM ITS TEXT AND FROM NO OTHER.** -/
theorem Bucket.parse_eq_some {text : String} {bucket : Bucket} :
    Bucket.parse text = some bucket ↔ text = bucket.toString := by
  have hyear : ∀ y : Year, '-' ∉ y.toString.toList := by
    intro y
    rw [Year.toString, String.toList_ofList]
    exact notMem_pad (by decide) _ _
  rw [Bucket.parse]
  constructor
  · intro h
    cases hsplit : splitOnce text.toList with
    | none =>
        rw [hsplit] at h
        obtain ⟨y, hy, rfl⟩ := Option.map_eq_some_iff.mp h
        exact year_eq_some.mp hy
    | some parts =>
        obtain ⟨a, b⟩ := parts
        rw [hsplit] at h
        simp only [Option.bind_eq_bind, Option.bind_eq_some_iff] at h
        obtain ⟨y, hy, m, hm, h⟩ := h
        cases h
        have ha := year_eq_some.mp hy
        have hb := month_eq_some.mp (Option.bind_eq_some_iff.mpr hm)
        obtain ⟨htext, -⟩ := splitOnce_eq_some.mp hsplit
        rw [Bucket.toString, ← ha, ← hb, ← String.toList_inj, htext]
        simp
  · rintro rfl
    cases bucket with
    | month y m =>
        have htext : (Bucket.toString (.month y m)).toList
            = y.toString.toList ++ '-' :: m.toString.toList := by
          simp [Bucket.toString]
        rw [splitOnce_eq_some.mpr ⟨htext, hyear y⟩]
        simp only [String.ofList_toList, year_eq_some.mpr rfl, month_eq_some.mpr rfl,
          Option.bind_eq_bind, Option.bind_some]
    | year y =>
        rw [Bucket.toString, splitOnce_eq_none (hyear y), year_eq_some.mpr rfl]
        rfl

/-! ## Segments -/

/-- The segments of a scope. -/
def Scope.segments : Scope → List String
  | .instance' pubkey _ => ["i", pubkey]
  | .network name _ => ["n", name]

/-- The segments an address joins. -/
def Address.parts : Address → List String
  | .index none => ["index"]
  | .index (some year) => ["index", year.toString]
  | .window r w scope => [r.asStr, w.asStr] ++ scope.elim [] Scope.segments
  | .series r p scope =>
      ["series", r.asStr, p.resolution.asStr, p.bucket.toString] ++ scope.elim [] Scope.segments

theorem Scope.parse_eq_some {kind value : String} {scope : Scope} :
    Scope.parse kind value = some scope ↔ scope.segments = [kind, value] := by
  rw [Scope.parse]
  constructor
  · intro h
    split at h
    · rename_i hkind
      rw [Scope.ofInstance] at h
      split at h
      · cases h
        rw [hkind]
        rfl
      · cases h
    · split at h
      · rename_i hkind
        rw [Scope.ofNetwork] at h
        split at h
        · cases h
          rw [hkind]
          rfl
        · cases h
      · cases h
  · intro h
    cases scope with
    | instance' pubkey hex =>
        cases h
        rw [if_pos rfl, Scope.ofInstance, dif_pos hex]
    | network name hname =>
        cases h
        rw [if_neg (by decide), if_pos rfl, Scope.ofNetwork, dif_pos hname]

theorem okOr_eq_ok {α : Type} {value : Option α} {error : ParseError} {v : α} :
    Address.okOr value error = .ok v ↔ value = some v := by
  cases value with
  | none => simp [Address.okOr]
  | some w => simp [Address.okOr]

theorem scope_eq_ok {input : String} {rest : List String} {expected : String}
    {scope : Option Scope} :
    Address.scope input rest expected = .ok scope ↔ rest = scope.elim [] Scope.segments := by
  rcases rest with _ | ⟨kind, _ | ⟨value, _ | ⟨third, rest⟩⟩⟩
  · cases scope with
    | none => simp [Address.scope]
    | some scope => cases scope <;> simp [Address.scope, Scope.segments]
  · cases scope with
    | none => simp [Address.scope]
    | some scope => cases scope <;> simp [Address.scope, Scope.segments]
  · have hshape : Address.scope input [kind, value] expected
        = match Scope.parse kind value with
          | some scope => .ok (some scope)
          | none => .error (.scope input (kind ++ ":" ++ value)) := rfl
    rw [hshape]
    cases hparse : Scope.parse kind value with
    | none =>
        refine iff_of_false (fun h => by cases h) fun h => ?_
        cases scope with
        | none => cases h
        | some scope => simp [Scope.parse_eq_some.mpr h.symm] at hparse
    | some found =>
        have hfound := Scope.parse_eq_some.mp hparse
        constructor
        · intro h
          cases h
          exact hfound.symm
        · intro h
          cases scope with
          | none => cases h
          | some scope =>
              have hsame := Scope.parse_eq_some.mpr h.symm
              rw [hparse] at hsame
              cases hsame
              rfl
  · cases scope with
    | none => simp [Address.scope]
    | some scope => cases scope <;> simp [Address.scope, Scope.segments]

theorem Partition.new_eq_some {resolution : Resolution} {bucket : Bucket} {p : Partition} :
    Partition.new resolution bucket = some p ↔ p.resolution = resolution ∧ p.bucket = bucket := by
  rw [Partition.new]
  constructor
  · intro h
    split at h
    · cases h
      exact ⟨rfl, rfl⟩
    · cases h
  · rintro ⟨rfl, rfl⟩
    rw [dif_pos p.fits]

theorem parseSeries_eq_ok {input report resolution bucket : String} {rest : List String}
    {a : Address} :
    Address.parseSeries input report resolution bucket rest = .ok a
      ↔ "series" :: report :: resolution :: bucket :: rest = a.parts
        ∧ ∃ r p scope, a = .series r p scope := by
  simp only [Address.parseSeries, bind_eq_ok, okOr_eq_ok, Report.parse_eq_some,
    Resolution.parse_eq_some, Option.bind_eq_some_iff, Bucket.parse_eq_some,
    Partition.new_eq_some, scope_eq_ok]
  constructor
  · rintro ⟨r, rfl, res, rfl, p, ⟨b, rfl, rfl, rfl⟩, scope, rfl, h⟩
    cases h
    exact ⟨rfl, r, p, scope, rfl⟩
  · rintro ⟨h, r, p, scope, rfl⟩
    simp only [Address.parts, List.cons_append, List.cons.injEq, List.nil_append] at h
    obtain ⟨-, rfl, rfl, rfl, rfl⟩ := h
    exact ⟨r, rfl, p.resolution, rfl, p, ⟨p.bucket, rfl, rfl, rfl⟩, scope, rfl, rfl⟩

theorem parseWindow_eq_ok {input report window : String} {rest : List String} {a : Address} :
    Address.parseWindow input report window rest = .ok a
      ↔ report :: window :: rest = a.parts ∧ ∃ r w scope, a = .window r w scope := by
  simp only [Address.parseWindow, bind_eq_ok, okOr_eq_ok, Report.parse_eq_some,
    Window.parse_eq_some, scope_eq_ok]
  constructor
  · rintro ⟨r, rfl, w, rfl, scope, rfl, h⟩
    cases h
    exact ⟨rfl, r, w, scope, rfl⟩
  · rintro ⟨h, r, w, scope, rfl⟩
    simp only [Address.parts, List.cons_append, List.cons.injEq, List.nil_append] at h
    obtain ⟨rfl, rfl, rfl⟩ := h
    exact ⟨r, rfl, w, rfl, scope, rfl, rfl⟩

theorem parseIndex_eq_ok {input text : String} {a : Address} :
    Address.parseIndex input text = .ok a
      ↔ ∃ y : Year, text = y.toString ∧ a = .index (some y) := by
  simp only [Address.parseIndex, bind_eq_ok, okOr_eq_ok, year_eq_some]
  constructor
  · rintro ⟨y, rfl, h⟩
    cases h
    exact ⟨y, rfl, rfl⟩
  · rintro ⟨y, rfl, rfl⟩
    exact ⟨y, rfl, rfl⟩

/-- No report is spelled like the two words the grammar keeps for itself. -/
theorem Report.asStr_ne (report : Report) : report.asStr ≠ "index" ∧ report.asStr ≠ "series" := by
  cases report <;> decide

/-- A report's word in front leaves a window address and no other. -/
theorem parts_eq_window {first second : String} {rest : List String} {a : Address}
    (hindex : ¬ (first = "index" ∧ rest = []))
    (hseries : first = "series" → rest.length < 2)
    (h : first :: second :: rest = a.parts) : ∃ r w scope, a = .window r w scope := by
  cases a with
  | index year =>
      cases year with
      | none => cases h
      | some y =>
          simp only [Address.parts, List.cons.injEq] at h
          exact absurd ⟨h.1, h.2.2⟩ hindex
  | window r w scope => exact ⟨r, w, scope, rfl⟩
  | series r p scope =>
      simp only [Address.parts, List.cons_append, List.cons.injEq, List.nil_append] at h
      obtain ⟨hfirst, -, rfl⟩ := h
      have := hseries hfirst
      simp at this

theorem parts_ne_nil (a : Address) : a.parts ≠ [] := by
  rcases a with (_ | y) | ⟨r, w, scope⟩ | ⟨r, p, scope⟩ <;> simp [Address.parts]

theorem parts_singleton {only : String} {a : Address} :
    [only] = a.parts ↔ only = "index" ∧ a = .index none := by
  constructor
  · intro h
    rcases a with (_ | y) | ⟨r, w, scope⟩ | ⟨r, p, scope⟩
    · simp only [Address.parts, List.cons.injEq, and_true] at h
      exact ⟨h, rfl⟩
    · simp [Address.parts] at h
    · simp [Address.parts] at h
    · simp [Address.parts] at h
  · rintro ⟨rfl, rfl⟩
    rfl

/-- **PARSING SPLITS WHAT RENDERING JOINS.** -/
theorem parse_eq_ok {text : String} {a : Address} :
    Address.parse text = .ok a ↔ Address.segments text = a.parts := by
  rw [Address.parse]
  by_cases hempty : text = ""
  · have hnil : Address.segments "" = [""] := by decide
    rw [if_pos hempty, hempty, hnil, parts_singleton]
    exact iff_of_false (fun h => by cases h) fun h => absurd h.1 (by decide)
  · rw [if_neg hempty]
    rcases Address.segments text with _ | ⟨first, _ | ⟨second, rest⟩⟩
    · exact iff_of_false (fun h => by cases h) fun h => parts_ne_nil a h.symm
    · show (if first = "index" then _ else _) = _ ↔ _
      rw [parts_singleton]
      by_cases hfirst : first = "index"
      · rw [if_pos hfirst]
        exact ⟨fun h => by cases h; exact ⟨hfirst, rfl⟩, fun h => by rw [h.2]⟩
      · rw [if_neg hfirst]
        exact iff_of_false (fun h => by cases h) fun h => hfirst h.1
    · by_cases hindex : first = "index" ∧ rest = []
      · obtain ⟨rfl, rfl⟩ := hindex
        show (if "index" = "index" ∧ ([] : List String) = [] then _ else _) = _ ↔ _
        rw [if_pos ⟨rfl, rfl⟩, parseIndex_eq_ok]
        constructor
        · rintro ⟨y, rfl, rfl⟩
          rfl
        · intro h
          rcases a with (_ | y) | ⟨r, w, scope⟩ | ⟨r, p, scope⟩
          · simp [Address.parts] at h
          · simp only [Address.parts, List.cons.injEq, and_true, true_and] at h
            exact ⟨y, h, rfl⟩
          · simp only [Address.parts, List.cons_append, List.cons.injEq] at h
            exact absurd h.1.symm r.asStr_ne.1
          · simp [Address.parts] at h
      · -- Short of a resolution and a bucket, `series:` is read as a report and a window.
        show (if first = "index" ∧ rest = [] then _ else _) = _ ↔ _
        rw [if_neg hindex]
        by_cases hseries : first = "series"
        · rw [if_pos hseries]
          subst hseries
          rcases rest with _ | ⟨resolution, _ | ⟨bucket, rest⟩⟩
          · rw [parseWindow_eq_ok]
            exact ⟨fun h => h.1, fun h => ⟨h, parts_eq_window hindex (by simp) h⟩⟩
          · rw [parseWindow_eq_ok]
            exact ⟨fun h => h.1, fun h => ⟨h, parts_eq_window hindex (by simp) h⟩⟩
          · rw [parseSeries_eq_ok]
            refine ⟨fun h => h.1, fun h => ⟨h, ?_⟩⟩
            rcases a with (_ | y) | ⟨r, w, scope⟩ | ⟨r, p, scope⟩
            · simp [Address.parts] at h
            · simp [Address.parts] at h
            · simp only [Address.parts, List.cons_append, List.cons.injEq] at h
              exact absurd h.1.symm r.asStr_ne.2
            · exact ⟨r, p, scope, rfl⟩
        · rw [if_neg hseries, parseWindow_eq_ok]
          exact ⟨fun h => h.1,
            fun h => ⟨h, parts_eq_window hindex (fun heq => absurd heq hseries) h⟩⟩

/-! ## Rendering joins the segments -/

theorem Report.colon_notMem (report : Report) : ':' ∉ report.asStr.toList := by
  cases report <;> decide

theorem Window.colon_notMem (window : Window) : ':' ∉ window.asStr.toList := by
  cases window <;> decide

theorem Resolution.colon_notMem (resolution : Resolution) : ':' ∉ resolution.asStr.toList := by
  cases resolution <;> decide

theorem Year.colon_notMem (y : Year) : ':' ∉ y.toString.toList := by
  rw [Year.toString, String.toList_ofList]
  exact notMem_pad (by decide) _ _

theorem Bucket.colon_notMem (bucket : Bucket) : ':' ∉ bucket.toString.toList := by
  cases bucket with
  | year y => exact y.colon_notMem
  | month y m =>
      have hmonth : ':' ∉ m.toString.toList := by
        rw [Month.toString, String.toList_ofList]
        exact notMem_pad (by decide) _ _
      simp [Bucket.toString, y.colon_notMem, hmonth]

theorem Scope.colon_notMem (scope : Scope) : ∀ part ∈ scope.segments, ':' ∉ part.toList := by
  cases scope with
  | instance' pubkey hex =>
      have hpubkey : ':' ∉ pubkey.toList := by
        intro hmem
        simp only [isHex64, Bool.and_eq_true, List.all_eq_true] at hex
        exact absurd (hex.2 ':' hmem) (by decide)
      simp [Scope.segments, hpubkey]
  | network name hname =>
      have hall : ∀ n ∈ networks, ':' ∉ n.toList := by decide
      have hmem : name ∈ networks := by simpa using hname
      simp [Scope.segments, hall name hmem]

/-- No part of an address holds the colon it is joined by. -/
theorem Address.colon_notMem (a : Address) : ∀ part ∈ a.parts, ':' ∉ part.toList := by
  have hscope : ∀ scope : Option Scope, ∀ part ∈ scope.elim [] Scope.segments,
      ':' ∉ part.toList := by
    intro scope
    cases scope with
    | none => simp
    | some scope => exact scope.colon_notMem
  rcases a with (_ | y) | ⟨r, w, scope⟩ | ⟨r, p, scope⟩
  · simp [Address.parts]
  · simp [Address.parts, y.colon_notMem]
  · simp only [Address.parts, List.cons_append, List.nil_append, List.mem_cons]
    rintro part (rfl | rfl | hpart)
    · exact r.colon_notMem
    · exact w.colon_notMem
    · exact hscope scope part hpart
  · simp only [Address.parts, List.cons_append, List.nil_append, List.mem_cons]
    rintro part (rfl | rfl | rfl | rfl | hpart)
    · decide
    · exact r.colon_notMem
    · exact p.resolution.colon_notMem
    · exact p.bucket.colon_notMem
    · exact hscope scope part hpart

/-- The text of an address is its parts with colons between them. -/
theorem toList_toString (a : Address) :
    a.toString.toList = [':'].intercalate (a.parts.map String.toList) := by
  rcases a with (_ | y) | ⟨r, w, _ | (⟨pubkey, hex⟩ | ⟨name, hname⟩)⟩ |
    ⟨r, p, _ | (⟨pubkey, hex⟩ | ⟨name, hname⟩)⟩ <;>
    simp [Address.toString, Address.parts, rendered, Scope.toString, Scope.segments,
      List.intercalate_cons_cons]

theorem segments_toString (a : Address) : Address.segments a.toString = a.parts := by
  rw [Address.segments, toList_toString, List.splitOn_intercalate, List.map_map]
  · simp [Function.comp_def]
  · intro l hl
    obtain ⟨part, hpart, rfl⟩ := List.mem_map.mp hl
    exact a.colon_notMem part hpart
  · simp [parts_ne_nil]

theorem toString_of_segments {text : String} {a : Address}
    (h : Address.segments text = a.parts) : a.toString = text := by
  rw [← String.toList_inj, toList_toString, ← h, Address.segments, List.map_map]
  simp only [Function.comp_def, String.toList_ofList, List.map_id']
  exact List.intercalate_splitOn ':'

/-! ## The grammar

    `docs/NOSTR-PUBLICATION.md` §3, as productions over strings. -/

/-- Exactly so many decimal digits. -/
def Digits (n : Nat) (text : String) : Prop :=
  text.toList.length = n ∧ ∀ c ∈ text.toList, c.isDigit = true

/-- `[scope]`: nothing, an instance or a network. -/
inductive Scoped : String → Prop
  | none : Scoped ""
  | instance' {pubkey : String} (hlen : pubkey.toList.length = 64)
      (hhex : ∀ c ∈ pubkey.toList, c ∈ "0123456789abcdef".toList) : Scoped (":i:" ++ pubkey)
  | network {name : String} (h : name ∈ ["mainnet", "testnet", "signet", "regtest"]) :
      Scoped (":n:" ++ name)

/-- The words of the grammar. -/
def reportWords : List String :=
  ["summary", "orders", "volume", "market", "disputes", "dev-fees", "instances", "compare"]

def windowWords : List String := ["24h", "7d", "30d", "90d", "all"]

def monthWords : List String :=
  ["01", "02", "03", "04", "05", "06", "07", "08", "09", "10", "11", "12"]

/-- The strings that name a document. -/
inductive Sentence : String → Prop
  | index : Sentence "index"
  | shard {year : String} (h : Digits 4 year) : Sentence ("index:" ++ year)
  | window {report window scope : String} (hr : report ∈ reportWords)
      (hw : window ∈ windowWords) (hs : Scoped scope) :
      Sentence (report ++ ":" ++ window ++ scope)
  | months {report resolution year month scope : String} (hr : report ∈ reportWords)
      (hres : resolution ∈ ["daily", "weekly"]) (hy : Digits 4 year) (hm : month ∈ monthWords)
      (hs : Scoped scope) :
      Sentence ("series:" ++ report ++ ":" ++ resolution ++ ":" ++ (year ++ "-" ++ month) ++ scope)
  | years {report year scope : String} (hr : report ∈ reportWords) (hy : Digits 4 year)
      (hs : Scoped scope) :
      Sentence ("series:" ++ report ++ ":" ++ "monthly" ++ ":" ++ year ++ scope)

theorem mem_reportWords {text : String} :
    text ∈ reportWords ↔ ∃ report : Report, report.asStr = text := by
  constructor
  · intro h
    simp only [reportWords, List.mem_cons, List.not_mem_nil, or_false] at h
    rcases h with rfl | rfl | rfl | rfl | rfl | rfl | rfl | rfl
    exacts [⟨.summary, rfl⟩, ⟨.orders, rfl⟩, ⟨.volume, rfl⟩, ⟨.market, rfl⟩, ⟨.disputes, rfl⟩,
      ⟨.devFees, rfl⟩, ⟨.instances, rfl⟩, ⟨.compare, rfl⟩]
  · rintro ⟨report, rfl⟩
    cases report <;> decide

theorem mem_windowWords {text : String} :
    text ∈ windowWords ↔ ∃ window : Window, window.asStr = text := by
  constructor
  · intro h
    simp only [windowWords, List.mem_cons, List.not_mem_nil, or_false] at h
    rcases h with rfl | rfl | rfl | rfl | rfl
    exacts [⟨.hours24, rfl⟩, ⟨.days7, rfl⟩, ⟨.days30, rfl⟩, ⟨.days90, rfl⟩, ⟨.all, rfl⟩]
  · rintro ⟨window, rfl⟩
    cases window <;> decide

theorem digits_iff_year {text : String} : Digits 4 text ↔ ∃ y : Year, text = y.toString := by
  constructor
  · rintro ⟨hlen, hall⟩
    obtain ⟨n, hn, hpad⟩ := eq_pad hlen hall
    refine ⟨⟨n, by omega⟩, ?_⟩
    rw [Year.toString, Int.toNat_natCast, ← hpad, String.ofList_toList]
  · rintro ⟨y, rfl⟩
    rw [Digits, Year.toString, String.toList_ofList]
    exact ⟨length_pad _ _, pad_isDigit _ _⟩

theorem mem_monthWords {text : String} :
    text ∈ monthWords ↔ ∃ m : Month, text = m.toString := by
  constructor
  · intro h
    simp only [monthWords, List.mem_cons, List.not_mem_nil, or_false] at h
    rcases h with rfl | rfl | rfl | rfl | rfl | rfl | rfl | rfl | rfl | rfl | rfl | rfl
    exacts [⟨⟨1, by decide⟩, by decide⟩, ⟨⟨2, by decide⟩, by decide⟩,
      ⟨⟨3, by decide⟩, by decide⟩, ⟨⟨4, by decide⟩, by decide⟩, ⟨⟨5, by decide⟩, by decide⟩,
      ⟨⟨6, by decide⟩, by decide⟩, ⟨⟨7, by decide⟩, by decide⟩, ⟨⟨8, by decide⟩, by decide⟩,
      ⟨⟨9, by decide⟩, by decide⟩, ⟨⟨10, by decide⟩, by decide⟩, ⟨⟨11, by decide⟩, by decide⟩,
      ⟨⟨12, by decide⟩, by decide⟩]
  · rintro ⟨⟨m, hm, hm'⟩, rfl⟩
    have hwords : ∀ k : Fin 13, 1 ≤ k.val →
        String.ofList (Timestamp.pad 2 k.val) ∈ monthWords := by decide
    have hk : m.toNat < 13 := by omega
    have h1 : 1 ≤ m.toNat := by omega
    exact hwords ⟨m.toNat, hk⟩ h1

theorem hex_iff {c : Char} :
    (c.isDigit || (decide ('a' ≤ c) && decide (c ≤ 'f'))) = true
      ↔ c ∈ "0123456789abcdef".toList := by
  constructor
  · intro h
    simp only [Char.isDigit, Bool.or_eq_true, Bool.and_eq_true, decide_eq_true_eq] at h
    have hrange : 48 ≤ c.toNat ∧ c.toNat ≤ 57 ∨ 97 ≤ c.toNat ∧ c.toNat ≤ 102 := h
    obtain ⟨n, hn⟩ : ∃ n, c.toNat = n := ⟨_, rfl⟩
    rw [← Char.ofNat_toNat c, hn]
    rw [hn] at hrange
    rcases hrange with ⟨hlo, hhi⟩ | ⟨hlo, hhi⟩
    · interval_cases n <;> decide
    · interval_cases n <;> decide
  · intro h
    have hlist : "0123456789abcdef".toList = ['0', '1', '2', '3', '4', '5', '6', '7', '8',
        '9', 'a', 'b', 'c', 'd', 'e', 'f'] := rfl
    rw [hlist] at h
    simp only [List.mem_cons, List.not_mem_nil, or_false] at h
    rcases h with h | h | h | h | h | h | h | h | h | h | h | h | h | h | h | h
    all_goals
      subst h
      decide

theorem isHex64_iff {pubkey : String} :
    isHex64 pubkey = true ↔ pubkey.toList.length = 64
      ∧ ∀ c ∈ pubkey.toList, c ∈ "0123456789abcdef".toList := by
  rw [isHex64, Bool.and_eq_true, beq_iff_eq, List.all_eq_true]
  exact and_congr_right fun _ => forall₂_congr fun c _ => hex_iff

theorem scoped_iff {text : String} :
    Scoped text ↔ ∃ scope : Option Scope, text = rendered scope := by
  constructor
  · intro h
    cases h with
    | none => exact ⟨none, rfl⟩
    | instance' hlen hhex => exact ⟨some (.instance' _ (isHex64_iff.mpr ⟨hlen, hhex⟩)), rfl⟩
    | network h => exact ⟨some (.network _ (by simpa [networks] using h)), rfl⟩
  · rintro ⟨_ | (⟨pubkey, hex⟩ | ⟨name, hname⟩), rfl⟩
    · exact .none
    · obtain ⟨hlen, hhex⟩ := isHex64_iff.mp hex
      exact .instance' hlen hhex
    · exact .network (by simpa [networks] using hname)

/-- The sentences are the texts of addresses. -/
theorem sentence_iff {text : String} : Sentence text ↔ ∃ a : Address, a.toString = text := by
  constructor
  · intro h
    cases h with
    | index => exact ⟨.index none, rfl⟩
    | shard h =>
        obtain ⟨y, rfl⟩ := digits_iff_year.mp h
        exact ⟨.index (some y), rfl⟩
    | window hr hw hs =>
        obtain ⟨r, rfl⟩ := mem_reportWords.mp hr
        obtain ⟨w, rfl⟩ := mem_windowWords.mp hw
        obtain ⟨scope, rfl⟩ := scoped_iff.mp hs
        exact ⟨.window r w scope, rfl⟩
    | months hr hres hy hm hs =>
        obtain ⟨r, rfl⟩ := mem_reportWords.mp hr
        obtain ⟨y, rfl⟩ := digits_iff_year.mp hy
        obtain ⟨m, rfl⟩ := mem_monthWords.mp hm
        obtain ⟨scope, rfl⟩ := scoped_iff.mp hs
        simp only [List.mem_cons, List.not_mem_nil, or_false] at hres
        rcases hres with rfl | rfl
        · exact ⟨.series r ⟨.daily, .month y m, rfl⟩ scope, rfl⟩
        · exact ⟨.series r ⟨.weekly, .month y m, rfl⟩ scope, rfl⟩
    | years hr hy hs =>
        obtain ⟨r, rfl⟩ := mem_reportWords.mp hr
        obtain ⟨y, rfl⟩ := digits_iff_year.mp hy
        obtain ⟨scope, rfl⟩ := scoped_iff.mp hs
        exact ⟨.series r ⟨.monthly, .year y, rfl⟩ scope, rfl⟩
  · rintro ⟨a, rfl⟩
    rcases a with (_ | y) | ⟨r, w, scope⟩ | ⟨r, ⟨resolution, bucket, hfits⟩, scope⟩
    · exact .index
    · exact .shard (digits_iff_year.mpr ⟨y, rfl⟩)
    · exact .window (mem_reportWords.mpr ⟨r, rfl⟩) (mem_windowWords.mpr ⟨w, rfl⟩)
        (scoped_iff.mpr ⟨scope, rfl⟩)
    · cases bucket with
      | month y m =>
          have hres : resolution.asStr ∈ ["daily", "weekly"] := by
            cases resolution with
            | daily => decide
            | weekly => decide
            | monthly => cases hfits
          exact .months (mem_reportWords.mpr ⟨r, rfl⟩) hres (digits_iff_year.mpr ⟨y, rfl⟩)
            (mem_monthWords.mpr ⟨m, rfl⟩) (scoped_iff.mpr ⟨scope, rfl⟩)
      | year y =>
          cases resolution with
          | daily => cases hfits
          | weekly => cases hfits
          | monthly =>
              exact .years (mem_reportWords.mpr ⟨r, rfl⟩) (digits_iff_year.mpr ⟨y, rfl⟩)
                (scoped_iff.mpr ⟨scope, rfl⟩)

/-- What parses renders to the string it came from. -/
theorem toString_of_parse {text : String} {a : Address} (h : Address.parse text = .ok a) :
    a.toString = text :=
  toString_of_segments (parse_eq_ok.mp h)

/-- What renders parses back. -/
theorem parse_toString (a : Address) : Address.parse a.toString = .ok a :=
  parse_eq_ok.mpr (segments_toString a)

/-- Two addresses with one text are one. -/
theorem toString_injective {a b : Address} (h : a.toString = b.toString) : a = b := by
  have ha := parse_toString a
  rw [h, parse_toString b] at ha
  cases ha
  rfl

/-- **THE GRAMMAR IS PARSED EXACTLY**: what parses renders to the string it came
    from, what renders parses back, no two addresses share a text, and the
    strings that parse are those the grammar derives. -/
theorem parse_exact :
    (∀ text a, Address.parse text = .ok a → a.toString = text)
      ∧ (∀ a : Address, Address.parse a.toString = .ok a)
      ∧ Function.Injective Address.toString
      ∧ ∀ text, (∃ a, Address.parse text = .ok a) ↔ Sentence text := by
  refine ⟨fun text a h => toString_of_parse h, parse_toString, fun a b h => toString_injective h,
    fun text => ?_⟩
  rw [sentence_iff]
  constructor
  · rintro ⟨a, h⟩
    exact ⟨a, toString_of_parse h⟩
  · rintro ⟨a, rfl⟩
    exact ⟨a, parse_toString a⟩

example : Address.parse "series:orders:daily:2026-13"
    = .error (.bucket "series:orders:daily:2026-13" "2026-13" "daily") := by decide +kernel

end Publish
