import Bestiario.Rebuild

/-! # Stored versions, read back

    `csv::split` and `orders::versions`: what an order version went into its row
    as, and what comes out.  The writer quotes a payment method that would not
    survive bare; the reader is a state machine over the characters, trimming
    the fields nothing quoted and dropping those that carry nothing.

    The machine is followed one FIELD at a time: over the characters of a bare
    field, over those of a quoted one, and across the comma that ends either. -/

namespace Repo

open Keyed Wire Parse

variable {F : Type} {X : Externals F}

/-! ## `csv::split` -/

/-- `csv::push`: one decoded field, unless it carries nothing. -/
def csvPush (values : List String) (field : List Char) (quoted : Bool) : List String :=
  let value := if quoted then String.ofList field else trim (String.ofList field)
  if value.isEmpty then values else values ++ [value]

/-- The loop of `csv::split`, by the characters still to come. -/
def csvScan : List Char → List String → List Char → Bool → Bool → List String
  | [], values, field, quoted, _ => csvPush values field quoted
  | c :: rest, values, field, quoted, insideQuotes =>
      if c = '"' ∧ insideQuotes = true then
        match rest with
        -- A doubled quote is one literal quote; a lone one closes the field.
        | '"' :: rest => csvScan rest values (field ++ ['"']) quoted insideQuotes
        | rest => csvScan rest values field quoted false
      else if c = '"' ∧ field = [] ∧ quoted = false then csvScan rest values field true true
      else if c = ',' ∧ insideQuotes = false then
        csvScan rest (csvPush values field quoted) [] false insideQuotes
      else csvScan rest values (field ++ [c]) quoted insideQuotes

/-- `csv::split`. -/
def csvSplit (csv : String) : List String := csvScan csv.toList [] [] false false

/-! ### One step of the machine -/

/-- A field ends at the end of the text or at a comma. -/
def Ends (rest : List Char) : Prop := rest = [] ∨ ∃ more, rest = ',' :: more

/-- Why a row could not be read. -/
inductive ReadError (F : Type) where
  | decode (reason : String)
  | columnDecode (index : String) (source : ParseError F ⊕ String)
  deriving DecidableEq

/-- `decode`: a column that has to hold a value of its own. -/
def decode {T : Type} (column : String) (value : Except (ParseError F) T) :
    Except (ReadError F) T :=
  match value with
  | .ok value => .ok value
  | .error error => .error (.columnDecode column (.inl error))

/-- `optional_network`, decoded. -/
def decodeNetwork (stored : Option String) : Except (ReadError F) (Option Network) :=
  match stored with
  | none => .ok none
  | some wire =>
      match Network.fromWire wire with
      | some network => .ok (some network)
      | none => .error (.columnDecode "network" (.inr ("`" ++ wire ++ "` is not a network")))

/-- `VersionRow::into_version`. -/
def intoVersion (row : OrderVersionRow F) : Except (ReadError F) (OrderVersion F) := do
  let fiat ← match row.fiatAmount, row.fiatMin, row.fiatMax with
    | some amount, _, _ => .ok (.fixed amount)
    | none, some min, some max => .ok (.range min max)
    | none, _, _ => .error (.decode "an order version has neither a fiat amount nor a range")
  let direction ← decode "kind" (Direction.parse row.kind)
  let status ← decode "status" (Status.parse row.status)
  let network ← decodeNetwork row.network
  return {
    eventId := row.eventId, orderId := row.orderId, pubkey := row.pubkey,
    createdAt := row.createdAt, direction, status, fiatCode := row.fiatCode,
    amountSats := row.amountSats, fiat, paymentMethods := csvSplit row.paymentMethods,
    premium := row.premium, network, expiresAt := row.expiresAt,
    orderCreatedAt := row.orderCreatedAt }

/-- `orders::versions`: every stored version of an order, oldest first. -/
def Orders.versions (orderId : String) (db : Db F) :
    Except (ReadError F) (List (OrderVersion F)) :=
  (rowsBy (ascAsc OrderVersionRow.createdAt OrderVersionRow.eventId) db.orderVersions
    fun row => row.orderId == orderId).mapM intoVersion

theorem direction_parse_asStr (direction : Direction) :
    Direction.parse (F := F) direction.asStr = .ok direction := by
  cases direction <;> rfl

theorem status_parse_asStr (status : Status) :
    Status.parse (F := F) status.asStr = .ok status := by
  cases status <;> rfl

/-- A reading of a list succeeds when the reading of each element does. -/
theorem mapM_eq_ok_iff {ε α β : Type} {f : α → Except ε β} {xs : List α} {ys : List β} :
    xs.mapM f = .ok ys ↔ List.Forall₂ (fun x y => f x = .ok y) xs ys := by
  induction xs generalizing ys with
  | nil =>
      rw [List.mapM_nil, List.forall₂_nil_left_iff]
      exact ⟨fun h => (Except.ok.inj h).symm, fun h => h ▸ rfl⟩
  | cons x xs ih =>
      rw [List.mapM_cons, bind_eq_ok, List.forall₂_cons_left_iff]
      constructor
      · rintro ⟨y, hy, h⟩
        obtain ⟨rest, hrest, h⟩ := bind_eq_ok.mp h
        exact ⟨y, rest, hy, ih.mp hrest, (Except.ok.inj h).symm⟩
      · rintro ⟨y, rest, hy, hrest, rfl⟩
        exact ⟨y, hy, bind_eq_ok.mpr ⟨rest, ih.mpr hrest, rfl⟩⟩

theorem mem_of_mapM {ε α β : Type} {f : α → Except ε β} {xs : List α} {ys : List β}
    (h : xs.mapM f = .ok ys) {y : β} (hy : y ∈ ys) : ∃ x ∈ xs, f x = .ok y := by
  have hread := mapM_eq_ok_iff.mp h
  clear h
  induction hread with
  | nil => exact nomatch hy
  | @cons x y' xs ys hxy _ ih =>
      rcases List.mem_cons.mp hy with rfl | hmem
      · exact ⟨x, List.mem_cons_self, hxy⟩
      · obtain ⟨x', hx', hread⟩ := ih hmem
        exact ⟨x', List.mem_cons_of_mem _ hx', hread⟩

theorem exists_of_mapM {ε α β : Type} {f : α → Except ε β} {xs : List α} {ys : List β}
    (h : xs.mapM f = .ok ys) {x : α} (hx : x ∈ xs) : ∃ y ∈ ys, f x = .ok y := by
  have hread := mapM_eq_ok_iff.mp h
  clear h
  induction hread with
  | nil => exact nomatch hx
  | @cons x' y xs ys hxy _ ih =>
      rcases List.mem_cons.mp hx with rfl | hmem
      · exact ⟨y, List.mem_cons_self, hxy⟩
      · obtain ⟨y', hy', hread⟩ := ih hmem
        exact ⟨y', List.mem_cons_of_mem _ hy', hread⟩

theorem exists_mapM {ε α β : Type} {f : α → Except ε β} {xs : List α}
    (h : ∀ x ∈ xs, ∃ y, f x = .ok y) : ∃ ys, xs.mapM f = .ok ys := by
  induction xs with
  | nil => exact ⟨[], rfl⟩
  | cons x xs ih =>
      obtain ⟨y, hy⟩ := h x List.mem_cons_self
      obtain ⟨ys, hys⟩ := ih fun x' hx' => h x' (List.mem_cons_of_mem _ hx')
      exact ⟨y :: ys, mapM_eq_ok_iff.mpr (.cons hy (mapM_eq_ok_iff.mp hys))⟩

end Repo
