import Bestiario.Labels

/-! # Which instance

    `commands/range.rs`: `--instance` is resolved against the instances the
    database knows, by pubkey, by the beginning of one, or by name.  Names are
    free text that the publishers choose, so two instances may go by one name, and
    a name may be the beginning of another's pubkey.

    What the user is owed is said apart from the code: one instance is picked
    when it alone was named in full, or, nothing being named in full, when it
    alone was begun; and whatever else matches is asked about. -/

namespace Commands

open Keyed Wire Repo
open Stats.Family (startsWith)

/-- A `(pubkey, name)` pair as loaded from the `instances` table. -/
abbrev KnownInstance := String × Option String

/-- Which instances a report covers. -/
inductive InstanceFilter where
  | all
  | one (pubkey : String)
  deriving DecidableEq

/-- Why an instance could not be resolved. -/
inductive InstanceError where
  | notFound (needle : String)
  | ambiguous (needle : String) (pubkeys : List String)
  deriving DecidableEq

/-- What the user is told. -/
def InstanceError.text : InstanceError → String
  | .notFound needle => "no instance matches `" ++ needle ++ "`"
  | .ambiguous needle pubkeys =>
      "`" ++ needle ++ "` matches " ++ toString pubkeys.length ++ " instances: "
        ++ ", ".intercalate pubkeys ++ ". Use a pubkey to disambiguate."

/-- `str::eq_ignore_ascii_case`. -/
def eqIgnoreAsciiCase (a b : String) : Bool :=
  a.toList.map Char.toLower == b.toList.map Char.toLower

/-- The pubkey or the name is the needle, letter case apart. -/
def exact (needle : String) (known : KnownInstance) : Bool :=
  eqIgnoreAsciiCase known.1 needle || known.2.any fun name => eqIgnoreAsciiCase name needle

section Resolve

-- `str::to_lowercase` follows the Unicode tables, which are the library's.
variable (lower : String → String)

/-- The pubkey begins with the needle, letter case apart. -/
def begins (needle : String) (known : KnownInstance) : Bool :=
  startsWith (lower known.1) (lower needle)

/-- The filter of the first pass. -/
def matching (needle : String) (known : KnownInstance) : Bool :=
  eqIgnoreAsciiCase known.1 needle || begins lower needle known
    || known.2.any fun name => eqIgnoreAsciiCase name needle

/-- `InstanceFilter::resolve`. -/
def InstanceFilter.resolve (needle : Option String) (known : List KnownInstance) :
    Except InstanceError InstanceFilter :=
  match needle with
  | none => .ok .all
  | some needle =>
      let needle := trim needle
      match (known.filter (matching lower needle)).map Prod.fst with
      | [] => .error (.notFound needle)
      | [pubkey] => .ok (.one pubkey)
      -- The second pass: the first that is named in full.
      | several =>
          match known.find? (exact needle) with
          | some exact => .ok (.one exact.1)
          | none => .error (.ambiguous needle several)

/-! ## What the user is owed -/

/-- Of the known instances, the one with this pubkey is the only one `q` holds of. -/
def Sole (known : List KnownInstance) (q : KnownInstance → Bool) (pubkey : String) : Prop :=
  ∃ i ∈ known, q i = true ∧ i.1 = pubkey ∧ ∀ j ∈ known, q j = true → j = i

/-- The needle means this instance and no other. -/
def Means (needle : String) (known : List KnownInstance) (pubkey : String) : Prop :=
  Sole known (exact needle) pubkey
    ∨ (∀ i ∈ known, exact needle i = false) ∧ Sole known (begins lower needle) pubkey

/-- Nothing is picked that is not meant: what matches nothing is not found, and
    what matches without meaning one instance is ambiguous. -/
structure NeverSilent (needle : String) (known : List KnownInstance) : Prop where
  one : ∀ pubkey, InstanceFilter.resolve lower (some needle) known = .ok (.one pubkey) →
    Means lower (trim needle) known pubkey
  notFound : (∀ i ∈ known, matching lower (trim needle) i = false) →
    InstanceFilter.resolve lower (some needle) known = .error (.notFound (trim needle))
  ambiguous : (∃ i ∈ known, matching lower (trim needle) i = true) →
    (∀ pubkey, ¬ Means lower (trim needle) known pubkey) →
    InstanceFilter.resolve lower (some needle) known
      = .error (.ambiguous (trim needle)
          ((known.filter (matching lower (trim needle))).map Prod.fst))

/-! ## The two passes -/

variable {lower} {needle : String} {known : List KnownInstance}

theorem matching_iff {i : KnownInstance} :
    matching lower needle i = true ↔ exact needle i = true ∨ begins lower needle i = true := by
  rw [matching, exact, Bool.or_eq_true, Bool.or_eq_true, Bool.or_eq_true]
  exact or_right_comm

theorem resolve_some :
    InstanceFilter.resolve lower (some needle) known
      = match (known.filter (matching lower (trim needle))).map Prod.fst with
        | [] => .error (.notFound (trim needle))
        | [pubkey] => .ok (.one pubkey)
        | several =>
            match known.find? (exact (trim needle)) with
            | some exact => .ok (.one exact.1)
            | none => .error (.ambiguous (trim needle) several) := rfl

/-- What the first pass leaves to the second. -/
theorem resolve_several {a b : KnownInstance} {rest : List KnownInstance}
    (hfilter : known.filter (matching lower (trim needle)) = a :: b :: rest) :
    InstanceFilter.resolve lower (some needle) known
      = match known.find? (exact (trim needle)) with
        | some exact => .ok (.one exact.1)
        | none => .error (.ambiguous (trim needle) ((a :: b :: rest).map Prod.fst)) := by
  rw [resolve_some, hfilter]
  rfl

theorem resolve_single {a : KnownInstance}
    (hfilter : known.filter (matching lower (trim needle)) = [a]) :
    InstanceFilter.resolve lower (some needle) known = .ok (.one a.1) := by
  rw [resolve_some, hfilter]
  rfl

theorem resolve_empty (hfilter : known.filter (matching lower (trim needle)) = []) :
    InstanceFilter.resolve lower (some needle) known = .error (.notFound (trim needle)) := by
  rw [resolve_some, hfilter]
  rfl

/-- The first that is named in full is the pick, alone or among others. -/
theorem resolve_of_exact {i : KnownInstance} (hi : i ∈ known)
    (hexact : exact (trim needle) i = true) :
    ∃ e ∈ known, exact (trim needle) e = true
      ∧ InstanceFilter.resolve lower (some needle) known = .ok (.one e.1) := by
  have hmem : i ∈ known.filter (matching lower (trim needle)) :=
    List.mem_filter.mpr ⟨hi, matching_iff.mpr (Or.inl hexact)⟩
  cases hfilter : known.filter (matching lower (trim needle)) with
  | nil =>
      rw [hfilter] at hmem
      exact nomatch hmem
  | cons a rest =>
      cases rest with
      | nil =>
          rw [hfilter, List.mem_singleton] at hmem
          exact ⟨i, hi, hexact, hmem ▸ resolve_single hfilter⟩
      | cons b rest =>
          cases hfind : known.find? (exact (trim needle)) with
          | none => exact absurd hexact (by simpa using List.find?_eq_none.mp hfind i hi)
          | some e =>
              refine ⟨e, List.mem_of_find?_eq_some hfind, List.find?_some hfind, ?_⟩
              rw [resolve_several hfilter, hfind]

/-- Whatever is meant is picked. -/
theorem resolve_of_means (hnodup : (known.map Prod.fst).Nodup) {pubkey : String}
    (hmeans : Means lower (trim needle) known pubkey) :
    InstanceFilter.resolve lower (some needle) known = .ok (.one pubkey) := by
  rcases hmeans with ⟨i, hi, hexact, rfl, honly⟩ | ⟨hnone, i, hi, hbegins, rfl, honly⟩
  · obtain ⟨e, he, hexact', hresolve⟩ := resolve_of_exact hi hexact
    rw [hresolve, honly e he hexact']
  · -- Nothing being named in full, what matches is what begins so, and that is one.
    have hfilter : known.filter (matching lower (trim needle)) = [i] := by
      have hperm : (known.filter (matching lower (trim needle))).Perm [i] := by
        refine (List.perm_ext_iff_of_nodup (hnodup.of_map.filter _)
          (List.nodup_singleton i)).mpr fun j => ?_
        rw [List.mem_filter, List.mem_singleton, matching_iff]
        constructor
        · rintro ⟨hj, hexact | hbegins'⟩
          · exact absurd hexact (by rw [hnone j hj]; exact Bool.false_ne_true)
          · exact honly j hj hbegins'
        · rintro rfl
          exact ⟨hi, Or.inr hbegins⟩
      exact List.perm_singleton.mp hperm
    exact resolve_single hfilter

/-- What alone is named in full is meant. -/
theorem means_of_exact (hone : ∀ i ∈ known, ∀ j ∈ known, exact needle i = true →
      exact needle j = true → i = j) {i : KnownInstance} (hi : i ∈ known)
    (hexact : exact needle i = true) : Means lower needle known i.1 :=
  Or.inl ⟨i, hi, hexact, rfl, fun j hj hexact' => hone j hj i hi hexact' hexact⟩

/-- What alone matches is meant, named in full or not. -/
theorem means_of_single {a : KnownInstance}
    (hfilter : known.filter (matching lower needle) = [a]) : Means lower needle known a.1 := by
  have honly : ∀ j ∈ known, matching lower needle j = true → j = a := by
    intro j hj hmatching
    have hmem := List.mem_filter.mpr ⟨hj, hmatching⟩
    rw [hfilter, List.mem_singleton] at hmem
    exact hmem
  have hmem : a ∈ known.filter (matching lower needle) := by
    rw [hfilter]
    exact List.mem_cons_self
  obtain ⟨ha, hmatching⟩ := List.mem_filter.mp hmem
  rcases matching_iff.mp hmatching with hexact | hbegins
  · exact Or.inl ⟨a, ha, hexact, rfl, fun j hj hexact' =>
      honly j hj (matching_iff.mpr (Or.inl hexact'))⟩
  · by_cases hexact : exact needle a = true
    · exact Or.inl ⟨a, ha, hexact, rfl, fun j hj hexact' =>
        honly j hj (matching_iff.mpr (Or.inl hexact'))⟩
    · refine Or.inr ⟨fun j hj => ?_, a, ha, hbegins, rfl, fun j hj hbegins' =>
        honly j hj (matching_iff.mpr (Or.inr hbegins'))⟩
      rw [← Bool.not_eq_true]
      intro hexact'
      have heq := honly j hj (matching_iff.mpr (Or.inl hexact'))
      exact hexact (heq ▸ hexact')

/-- A pick of what is meant leaves nothing else to say. -/
theorem NeverSilent.of_pick {pubkey : String} (hmeans : Means lower (trim needle) known pubkey)
    (hmatch : ∃ i ∈ known, matching lower (trim needle) i = true)
    (hresolve : InstanceFilter.resolve lower (some needle) known = .ok (.one pubkey)) :
    NeverSilent lower needle known where
  one := by
    intro other hok
    rw [hresolve] at hok
    injection hok with hok
    injection hok with hok
    exact hok ▸ hmeans
  notFound := by
    intro hnone
    obtain ⟨i, hi, hmatching⟩ := hmatch
    exact absurd ((hnone i hi).symm.trans hmatching) Bool.false_ne_true
  ambiguous := by
    intro _ hnot
    exact absurd hmeans (hnot pubkey)

/-- Where one instance at most is named in full, the pick is never silent. -/
theorem neverSilent_of_one (hone : ∀ i ∈ known, ∀ j ∈ known, exact (trim needle) i = true →
      exact (trim needle) j = true → i = j) : NeverSilent lower needle known := by
  -- The cases are those of the match on what the first pass leaves.
  cases hfilter : known.filter (matching lower (trim needle)) with
  | nil =>
      refine ⟨fun pubkey hok => ?_, fun _ => resolve_empty hfilter, ?_⟩
      · rw [resolve_empty hfilter] at hok
        exact nomatch hok
      · rintro ⟨i, hi, hmatching⟩ -
        have hmem : i ∈ known.filter (matching lower (trim needle)) :=
          List.mem_filter.mpr ⟨hi, hmatching⟩
        rw [hfilter] at hmem
        exact nomatch hmem
  | cons a rest =>
      have hmem : a ∈ known.filter (matching lower (trim needle)) := by
        rw [hfilter]
        exact List.mem_cons_self
      have hmatch : ∃ i ∈ known, matching lower (trim needle) i = true :=
        ⟨a, (List.mem_filter.mp hmem).1, (List.mem_filter.mp hmem).2⟩
      cases rest with
      | nil => exact .of_pick (means_of_single hfilter) hmatch (resolve_single hfilter)
      | cons b rest =>
          cases hfind : known.find? (exact (trim needle)) with
          | some e =>
              have hmeans : Means lower (trim needle) known e.1 := means_of_exact hone
                (List.mem_of_find?_eq_some hfind) (List.find?_some hfind)
              refine .of_pick hmeans hmatch ?_
              rw [resolve_several hfilter, hfind]
          | none =>
              have hresolve : InstanceFilter.resolve lower (some needle) known
                  = .error (.ambiguous (trim needle) ((a :: b :: rest).map Prod.fst)) := by
                rw [resolve_several hfilter, hfind]
              refine ⟨fun pubkey hok => ?_, fun hnone => ?_, fun _ _ => ?_⟩
              · rw [hresolve] at hok
                exact nomatch hok
              · obtain ⟨i, hi, hmatching⟩ := hmatch
                exact absurd ((hnone i hi).symm.trans hmatching) Bool.false_ne_true
              · rw [hresolve, hfilter]

/-- **A PICK IS NEVER SILENT, ONE INSTANCE AT MOST BEING NAMED IN FULL**, and only
    then: of two that go by one name, the first is picked. -/
theorem resolve_neverSilent_iff (lower : String → String) (needle : String)
    (known : List KnownInstance) :
    NeverSilent lower needle known
      ↔ ∀ i ∈ known, ∀ j ∈ known, exact (trim needle) i = true →
          exact (trim needle) j = true → i = j := by
  constructor
  · intro hnever i hi j hj hexact hexact'
    obtain ⟨e, -, -, hresolve⟩ := resolve_of_exact hi hexact
    rcases hnever.one e.1 hresolve with ⟨k, -, -, -, honly⟩ | ⟨hnone, -⟩
    · exact (honly i hi hexact).trans (honly j hj hexact').symm
    · exact absurd hexact (by rw [hnone i hi]; exact Bool.false_ne_true)
  · intro hone
    exact neverSilent_of_one hone

end Resolve

/-! ## Against the database -/

/-- What `Query::resolve_for` resolves against: every instance, oldest first. -/
def known {F : Type} (db : Db F) : List KnownInstance :=
  (rowsBy (ascAsc Instance.firstSeenAt Instance.pubkey) db.instances fun _ => true).map
    fun row => (row.pubkey, row.name)

/-- No pubkey is known twice. -/
theorem known_nodup {F : Type} {X : Externals F} {db : Db F} (h : Rebuild.Reachable X db) :
    ((known db).map Prod.fst).Nodup := by
  have hkeyed : ∀ (k : String) row, db.instances[k]? = some row → row.pubkey = k :=
    fun k row hk => ((Load.Reachable.attended h).drawn k row hk).1
  have hmap : (known db).map Prod.fst
      = (rowsBy (ascAsc Instance.firstSeenAt Instance.pubkey) db.instances
          fun _ => true).map Instance.pubkey := by
    rw [known, List.map_map]
    rfl
  rw [hmap]
  refine List.Nodup.map_on ?_ ((List.perm_insertionSort _ _).nodup_iff.mpr
    (Load.rows_nodup hkeyed))
  intro a ha b hb heq
  obtain ⟨⟨k, hk⟩, -⟩ := mem_rowsBy.mp ha
  obtain ⟨⟨l, hl⟩, -⟩ := mem_rowsBy.mp hb
  rw [hkeyed k a hk, hkeyed l b hl] at heq
  subst heq
  rw [hk] at hl
  exact Option.some.inj hl

/-- **AGAINST THE DATABASE**, a needle that names one instance at most in full picks
    the instance it means and no other. -/
theorem resolve_known {F : Type} {X : Externals F} {db : Db F} (h : Rebuild.Reachable X db)
    (lower : String → String) (needle : String)
    (hone : ∀ i ∈ known db, ∀ j ∈ known db, exact (trim needle) i = true →
      exact (trim needle) j = true → i = j) (pubkey : String) :
    InstanceFilter.resolve lower (some needle) (known db) = .ok (.one pubkey)
      ↔ Means lower (trim needle) (known db) pubkey :=
  ⟨(neverSilent_of_one hone).one pubkey,
    resolve_of_means (known_nodup h)⟩

/-- `str::to_lowercase` on ASCII text. -/
def asciiLower (text : String) : String := String.ofList (text.toList.map Char.toLower)

/-- Two instances go by the name, and the report is on the first. -/
theorem same_name_picked :
    InstanceFilter.resolve asciiLower (some "mostro")
        [("00aa", some "Mostro"), ("00ab", some "Mostro")] = .ok (.one "00aa")
      ∧ ¬ NeverSilent asciiLower "mostro" [("00aa", some "Mostro"), ("00ab", some "Mostro")] := by
  refine ⟨by decide, fun hnever => ?_⟩
  rcases hnever.one "00aa" (by decide) with ⟨i, -, -, -, honly⟩ | ⟨hnone, -⟩
  · have hfirst := honly ("00aa", some "Mostro") (by decide) (by decide)
    have hsecond := honly ("00ab", some "Mostro") (by decide) (by decide)
    exact absurd (hfirst.trans hsecond.symm) (by decide)
  · exact absurd (hnone ("00aa", some "Mostro") (by decide)) (by decide)

end Commands
