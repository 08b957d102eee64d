import Bestiario.Restatement
import Bestiario.Totals

/-! # What a snapshot lists

    A snapshot is reached through the `d` tags of its documents and through its
    index.  No two documents share a tag, every tag parses back to the address
    it was rendered from, and the index says of each resolution how far its
    partitions reach.

    The loops of `Snapshot::compute` nest reports, windows, resolutions, buckets
    and profiles; an address repeats none of them, so two documents differ where
    the loops that made them do.  The index compares buckets as TEXT, which over
    the years four digits can write is to compare them as dates. -/

namespace Publish

open Groups Keyed
open Stats (Floats Data Family)

variable {F : Type} {digest : String → String} {A : Floats F} {data : Data F}
  {coverage : Coverage} {snapshotId : String} {now : Int}

/-! ## No two addresses are the same -/

/-- The report an address carries. -/
def Address.report : Address → Option Report
  | .index _ => none
  | .window report _ _ => some report
  | .series report _ _ => some report

/-- Two documents of different addresses. -/
def Apart (a b : Document F) : Prop := a.address ≠ b.address

theorem windowDocuments_apart (run : Run) (report : Report) :
    (Snapshot.windowDocuments digest A data coverage run report).Pairwise Apart := by
  refine List.pairwise_map.mpr ((show Window.every.Nodup by decide).imp fun hne heq => ?_)
  cases heq
  exact hne rfl

/-- A series document lies in the list of its resolution. -/
theorem seriesDocuments_apart (run : Run) (report : Report) :
    (Snapshot.seriesDocuments digest A data coverage run report).Pairwise Apart := by
  rw [Snapshot.seriesDocuments]
  cases hfamily : familyOf report with
  | none => exact List.Pairwise.nil
  | some family =>
      have haddress : ∀ resolution bucket document,
          ((partition digest A data report resolution bucket coverage run.generatedAt).map
            fun partition => { Snapshot.computed digest A run partition.address
              (some partition.period) (.series partition.payload) with
                hash := partition.hash }) = some document →
          ∃ slot, slot.resolution = resolution ∧ slot.bucket = bucket
            ∧ document.address = .series report slot none := by
        intro resolution bucket document hdocument
        obtain ⟨found, hfound, rfl⟩ := Option.map_eq_some_iff.mp hdocument
        rw [Snapshot.partition_eq hfamily, Option.bind_eq_some_iff] at hfound
        obtain ⟨slot, hslot, hfound⟩ := hfound
        obtain ⟨rfl, rfl⟩ := Partition.new_eq_some.mp hslot
        split at hfound
        · cases hfound
          exact ⟨slot, rfl, rfl, rfl⟩
        · cases hfound
      rw [Option.isNone_some, if_neg Bool.false_ne_true]
      refine List.pairwise_flatMap.mpr ⟨fun resolution _ => ?_, ?_⟩
      · refine (coverage.partitions_ordered resolution run.generatedAt).1.filterMap _ ?_
        intro bucket bucket' hlt a ha b hb heq
        obtain ⟨slot, -, rfl, haddr⟩ := haddress _ _ _ ha
        obtain ⟨slot', -, rfl, haddr'⟩ := haddress _ _ _ hb
        rw [haddr, haddr'] at heq
        cases heq
        exact lt_irrefl _ hlt
      · refine (show Resolution.all.Nodup by decide).imp fun hne a ha b hb heq => ?_
        obtain ⟨bucket, -, ha⟩ := List.mem_filterMap.mp ha
        obtain ⟨bucket', -, hb⟩ := List.mem_filterMap.mp hb
        obtain ⟨slot, rfl, -, haddr⟩ := haddress _ _ _ ha
        obtain ⟨slot', rfl, -, haddr'⟩ := haddress _ _ _ hb
        rw [haddr, haddr'] at heq
        cases heq
        exact hne rfl

theorem scopedDocuments_apart (run : Run) (profile : Stats.Profile F) :
    (Snapshot.scopedDocuments digest A data coverage run profile).Pairwise Apart := by
  rw [Snapshot.scopedDocuments]
  cases Scope.ofInstance profile.pubkey with
  | none => exact List.Pairwise.nil
  | some scope =>
      simp only [scopedReports, List.flatMap_cons, List.flatMap_nil, List.append_nil]
      refine List.pairwise_map.mpr ((show Window.every.Nodup by decide).imp fun hne heq => ?_)
      cases heq
      exact hne rfl

/-- **NO TWO DOCUMENTS SHARE AN ADDRESS**, if no two profiles share a pubkey. -/
theorem compute_apart (hprofiles : (data.profiles.map Stats.Profile.pubkey).Nodup) :
    (Snapshot.compute digest A data coverage snapshotId now).documents.Pairwise Apart := by
  refine List.pairwise_append.mpr ⟨List.pairwise_flatMap.mpr ⟨fun report _ => ?_, ?_⟩,
    List.pairwise_flatMap.mpr ⟨fun profile _ => scopedDocuments_apart _ profile, ?_⟩, ?_⟩
  · -- The windows of a report beside its series.
    refine List.pairwise_append.mpr ⟨windowDocuments_apart _ report,
      seriesDocuments_apart _ report, fun a ha b hb heq => ?_⟩
    obtain ⟨span, rfl⟩ := Snapshot.mem_windowDocuments.mp ha
    obtain ⟨family, slot, -, -, -, rfl⟩ := Snapshot.mem_seriesDocuments.mp hb
    cases heq
  · -- One report beside another.
    have hreport : ∀ report document,
        document ∈ Snapshot.windowDocuments digest A data coverage ⟨snapshotId, now⟩ report
            ++ Snapshot.seriesDocuments digest A data coverage ⟨snapshotId, now⟩ report →
        document.address.report = some report := by
      intro report document hmem
      rcases List.mem_append.mp hmem with hmem | hmem
      · obtain ⟨span, rfl⟩ := Snapshot.mem_windowDocuments.mp hmem
        rfl
      · obtain ⟨family, slot, -, -, -, rfl⟩ := Snapshot.mem_seriesDocuments.mp hmem
        rfl
    refine (show Report.all.Nodup by decide).imp fun hne a ha b hb heq => hne ?_
    have hsame := congrArg Address.report heq
    rw [hreport _ a ha, hreport _ b hb] at hsame
    exact Option.some.inj hsame
  · -- One instance beside another.
    refine (List.pairwise_map.mp hprofiles).imp fun hne a ha b hb heq => hne ?_
    obtain ⟨scope, span, hscope, rfl⟩ := Snapshot.mem_scopedDocuments.mp ha
    obtain ⟨scope', span', hscope', rfl⟩ := Snapshot.mem_scopedDocuments.mp hb
    obtain ⟨hhex, rfl⟩ := Snapshot.ofInstance_eq_some.mp hscope
    obtain ⟨hhex', rfl⟩ := Snapshot.ofInstance_eq_some.mp hscope'
    injection heq with _ _ hsame
    injection Option.some.inj hsame
  · -- The network beside the instances.
    intro a ha b hb heq
    obtain ⟨profile, -, hb⟩ := List.mem_flatMap.mp hb
    obtain ⟨scope, span, -, rfl⟩ := Snapshot.mem_scopedDocuments.mp hb
    obtain ⟨report, -, ha⟩ := List.mem_flatMap.mp ha
    rcases List.mem_append.mp ha with ha | ha
    · obtain ⟨span', rfl⟩ := Snapshot.mem_windowDocuments.mp ha
      cases heq
    · obtain ⟨family, slot, -, -, -, rfl⟩ := Snapshot.mem_seriesDocuments.mp ha
      cases heq

/-! ## What is there -/

/-- The window documents of the network: every report over every window. -/
def networkWindows : List Address :=
  Report.all.flatMap fun report => Window.every.map fun span => .window report span none

example : networkWindows.length = 40 := rfl

/-- Whether an address is narrowed to this instance. -/
def Address.scopedTo (pubkey : String) : Address → Bool
  | .index _ => false
  | .window _ _ scope | .series _ _ scope =>
      match scope with
      | some (.instance' key _) => key == pubkey
      | _ => false

/-- What one profile brings, of what is asked about an instance. -/
theorem filter_scopedDocuments (run : Run) (profile : Stats.Profile F) {pubkey : String}
    (hhex : isHex64 pubkey = true) :
    ((Snapshot.scopedDocuments digest A data coverage run profile).map Document.address).filter
        (Address.scopedTo pubkey)
      = if profile.pubkey = pubkey then
          Window.every.map fun span => .window .orders span (some (.instance' pubkey hhex))
        else [] := by
  rw [Snapshot.scopedDocuments]
  by_cases hsame : profile.pubkey = pubkey
  · subst hsame
    rw [Scope.ofInstance, dif_pos hhex, if_pos rfl]
    simp only [scopedReports, List.flatMap_cons, List.flatMap_nil, List.append_nil,
      List.map_map]
    rw [List.filter_eq_self.mpr]
    · rfl
    · intro address hmem
      obtain ⟨span, -, rfl⟩ := List.mem_map.mp hmem
      simp [Snapshot.computed, Address.scopedTo]
  · rw [if_neg hsame]
    cases hscope : Scope.ofInstance profile.pubkey with
    | none => rfl
    | some scope =>
        obtain ⟨_, rfl⟩ := Snapshot.ofInstance_eq_some.mp hscope
        rw [List.filter_eq_nil_iff]
        intro address hmem
        simp only [scopedReports, List.flatMap_cons, List.flatMap_nil, List.append_nil,
          List.map_map, List.mem_map] at hmem
        obtain ⟨span, -, rfl⟩ := hmem
        simpa [Snapshot.computed, Address.scopedTo] using hsame

/-- **AN INSTANCE HAS FIVE DOCUMENTS**, those of its orders. -/
theorem filter_scopedTo (hprofiles : (data.profiles.map Stats.Profile.pubkey).Nodup)
    {profile : Stats.Profile F} (hprofile : profile ∈ data.profiles)
    (hhex : isHex64 profile.pubkey = true) :
    ((Snapshot.compute digest A data coverage snapshotId now).documents.map
        Document.address).filter (Address.scopedTo profile.pubkey)
      = Window.every.map fun span =>
          .window .orders span (some (.instance' profile.pubkey hhex)) := by
  have hnetwork : ((Report.all.flatMap fun report =>
      Snapshot.windowDocuments digest A data coverage ⟨snapshotId, now⟩ report
        ++ Snapshot.seriesDocuments digest A data coverage ⟨snapshotId, now⟩ report).map
          Document.address).filter (Address.scopedTo profile.pubkey) = [] := by
    rw [List.filter_eq_nil_iff]
    intro address hmem
    obtain ⟨document, hdocument, rfl⟩ := List.mem_map.mp hmem
    obtain ⟨report, -, hreport⟩ := List.mem_flatMap.mp hdocument
    rcases List.mem_append.mp hreport with hwindow | hseries
    · obtain ⟨span, rfl⟩ := Snapshot.mem_windowDocuments.mp hwindow
      exact Bool.false_ne_true
    · obtain ⟨family, slot, -, -, -, rfl⟩ := Snapshot.mem_seriesDocuments.mp hseries
      exact Bool.false_ne_true
  rw [Snapshot.compute, List.map_append, List.filter_append, hnetwork, List.nil_append,
    List.map_flatMap, List.filter_flatMap,
    flatMap_single (List.Nodup.of_map Stats.Profile.pubkey hprofiles) hprofile]
  · rw [filter_scopedDocuments _ profile hhex, if_pos rfl]
  · intro other hother hne
    rw [filter_scopedDocuments _ other hhex, if_neg]
    exact fun hsame => hne (List.inj_on_of_nodup_map hprofiles hother hprofile hsame)

/-! ## How far each resolution reaches -/

/-- The bucket a series document answers for, if its resolution has this name. -/
def bucketAt (name : String) (document : Document F) : Option Bucket :=
  match document.address with
  | .series _ slot _ => if slot.resolution.asStr = name then some slot.bucket else none
  | _ => none

/-- The texts the loop of `resolutions` compares under one name. -/
def keysAt (name : String) (documents : List (Document F)) : List String :=
  (documents.filterMap (bucketAt name)).map Bucket.toString

/-- `span` reaches from the least of the keys to the greatest. -/
structure Available.Reaches (span : Available) (keys : List String) : Prop where
  least : span.from' ∈ keys ∧ ∀ key ∈ keys, span.from' ≤ key
  greatest : span.until' ∈ keys ∧ ∀ key ∈ keys, key ≤ span.until'

theorem Available.Reaches.widen {span : Available} {keys : List String}
    (h : span.Reaches keys) (key : String) :
    (Available.mk (min span.from' key) (max span.until' key)).Reaches (keys ++ [key]) := by
  constructor
  · refine ⟨?_, fun other hmem => ?_⟩
    · rcases min_choice span.from' key with hmin | hmin
      · rw [hmin]
        exact List.mem_append_left _ h.least.1
      · rw [hmin]
        exact List.mem_append_right _ (List.mem_singleton_self key)
    · rcases List.mem_append.mp hmem with hmem | hmem
      · exact le_trans (min_le_left _ _) (h.least.2 other hmem)
      · rw [List.mem_singleton.mp hmem]
        exact min_le_right _ _
  · refine ⟨?_, fun other hmem => ?_⟩
    · rcases max_choice span.until' key with hmax | hmax
      · rw [hmax]
        exact List.mem_append_left _ h.greatest.1
      · rw [hmax]
        exact List.mem_append_right _ (List.mem_singleton_self key)
    · rcases List.mem_append.mp hmem with hmem | hmem
      · exact le_trans (h.greatest.2 other hmem) (le_max_left _ _)
      · rw [List.mem_singleton.mp hmem]
        exact le_max_right _ _

/-- **THE LOOP OF `resolutions`**: each name has its least key and its greatest. -/
theorem resolutions_reaches (documents : List (Document F)) (name : String) :
    (∀ span, (resolutions documents)[name]? = some span →
        span.Reaches (keysAt name documents))
      ∧ ((resolutions documents)[name]? = none → keysAt name documents = []) := by
  induction documents using List.reverseRecOn with
  | nil => exact ⟨(fun span hspan => nomatch hspan), fun _ => rfl⟩
  | append_singleton documents document ih =>
      have hloop : resolutions (documents ++ [document])
          = widen (resolutions documents) document := by
        rw [resolutions, List.foldl_append]
        rfl
      have hkeys : keysAt name (documents ++ [document])
          = keysAt name documents ++ keysAt name [document] := by
        rw [keysAt, List.filterMap_append, List.map_append]
        rfl
      rw [hloop, hkeys]
      cases haddress : document.address with
      | index year => simpa [widen, keysAt, bucketAt, haddress] using ih
      | window report span scope => simpa [widen, keysAt, bucketAt, haddress] using ih
      | series report slot scope =>
          simp only [widen, haddress, getElem?_insert_eq]
          by_cases hname : slot.resolution.asStr = name
          · have hkey : keysAt name [document] = [slot.bucket.toString] := by
              simp [keysAt, bucketAt, haddress, hname]
            rw [if_pos hname, hkey, hname]
            refine ⟨fun span hspan => ?_, (fun hnone => nomatch hnone)⟩
            rw [← Option.some.inj hspan]
            cases hbefore : (resolutions documents)[name]? with
            | none =>
                rw [ih.2 hbefore]
                exact ⟨⟨List.mem_singleton_self _, by simp⟩,
                  ⟨List.mem_singleton_self _, by simp⟩⟩
            | some before => exact (ih.1 before hbefore).widen _
          · have hkey : keysAt name [document] = [] := by
              simp [keysAt, bucketAt, haddress, hname]
            rw [if_neg hname, hkey, List.append_nil]
            exact ih

/-- The buckets of one resolution that have a document. -/
def Snapshot.published (snapshot : Snapshot F) (resolution : Resolution) : Set Bucket :=
  {bucket | ∃ document ∈ snapshot.documents, ∃ report slot scope,
    document.address = .series report slot scope ∧ slot.resolution = resolution
      ∧ slot.bucket = bucket}

/-- From the earliest of the buckets to the latest, or nothing when there is
    none. -/
def FirstToLast (buckets : Set Bucket) : Option Available → Prop
  | none => buckets = ∅
  | some span => ∃ first ∈ buckets, ∃ last ∈ buckets,
      span = ⟨first.toString, last.toString⟩ ∧ ∀ bucket ∈ buckets,
        first.window.from' ≤ bucket.window.from' ∧ bucket.window.from' ≤ last.window.from'

theorem asStr_injective {resolution resolution' : Resolution}
    (h : resolution.asStr = resolution'.asStr) : resolution = resolution' := by
  cases resolution <;> cases resolution' <;> first | rfl | exact absurd h (by decide)

theorem mem_keysAt {snapshot : Snapshot F} {resolution : Resolution} {key : String} :
    key ∈ keysAt resolution.asStr snapshot.documents
      ↔ ∃ bucket ∈ snapshot.published resolution, bucket.toString = key := by
  rw [keysAt, List.mem_map]
  refine exists_congr fun bucket => and_congr_left fun _ => ?_
  rw [List.mem_filterMap]
  refine exists_congr fun document => and_congr_right fun _ => ?_
  cases haddress : document.address with
  | index year => simp [bucketAt, haddress]
  | window report span scope => simp [bucketAt, haddress]
  | series report slot scope =>
      simp only [bucketAt, haddress, Option.ite_none_right_eq_some, Option.some.injEq]
      constructor
      · rintro ⟨hname, rfl⟩
        exact ⟨report, slot, scope, rfl, asStr_injective hname, rfl⟩
      · rintro ⟨_, _, _, heq, rfl, rfl⟩
        cases heq
        exact ⟨rfl, rfl⟩

/-- A published bucket has the shape of its resolution. -/
theorem fits_of_published {snapshot : Snapshot F} {resolution : Resolution} {bucket : Bucket}
    (h : bucket ∈ snapshot.published resolution) : bucket.fits resolution = true := by
  obtain ⟨-, -, -, slot, -, -, rfl, rfl⟩ := h
  exact slot.fits

/-- Of two buckets of one resolution, the text that is not after opens first. -/
theorem opens_of_toString_le {bucket bucket' : Bucket} {resolution : Resolution}
    (h : bucket.fits resolution = true) (h' : bucket'.fits resolution = true)
    (hle : bucket.toString ≤ bucket'.toString) :
    bucket.window.from' ≤ bucket'.window.from' := by
  have hindex : bucket.index ≤ bucket'.index := by
    by_contra hlt
    exact absurd (Bucket.toString_lt h' h (not_le.mp hlt)) (not_lt.mpr hle)
  rw [Bucket.window_eq h, Bucket.window_eq h']
  exact resolution.period.scale.start_strictMono.monotone hindex

/-- **THE INDEX SAYS HOW FAR EACH RESOLUTION REACHES**, by date. -/
theorem resolutions_firstToLast (snapshot : Snapshot F) (publisher : Publisher)
    (resolution : Resolution) :
    FirstToLast (snapshot.published resolution)
      (snapshot.index publisher).resolutions[resolution.asStr]? := by
  obtain ⟨hsome, hnone⟩ := resolutions_reaches snapshot.documents resolution.asStr
  show FirstToLast _ (resolutions snapshot.documents)[resolution.asStr]?
  cases hspan : (resolutions snapshot.documents)[resolution.asStr]? with
  | none =>
      refine Set.eq_empty_iff_forall_notMem.mpr fun bucket hbucket => ?_
      have hkey := mem_keysAt.mpr ⟨bucket, hbucket, rfl⟩
      rw [hnone hspan] at hkey
      exact nomatch hkey
  | some span =>
      obtain ⟨⟨hfrom, hleast⟩, huntil, hgreatest⟩ := hsome span hspan
      obtain ⟨first, hfirst, hfirstText⟩ := mem_keysAt.mp hfrom
      obtain ⟨last, hlast, hlastText⟩ := mem_keysAt.mp huntil
      refine ⟨first, hfirst, last, hlast, by rw [hfirstText, hlastText], fun bucket hbucket => ?_⟩
      have hkey := mem_keysAt.mpr ⟨bucket, hbucket, rfl⟩
      have hfits := fits_of_published hbucket
      constructor
      · exact opens_of_toString_le (fits_of_published hfirst) hfits
          (hfirstText ▸ hleast _ hkey)
      · exact opens_of_toString_le hfits (fits_of_published hlast)
          (hlastText ▸ hgreatest _ hkey)

/-- The index names no resolution but those there are. -/
theorem resolution_of_name {snapshot : Snapshot F} {publisher : Publisher} {name : String}
    (h : (snapshot.index publisher).resolutions[name]? ≠ none) :
    ∃ resolution : Resolution, resolution.asStr = name := by
  obtain ⟨span, hspan⟩ := Option.ne_none_iff_exists'.mp h
  obtain ⟨⟨hfrom, -⟩, -⟩ := (resolutions_reaches snapshot.documents name).1 span hspan
  obtain ⟨bucket, hbucket, -⟩ := List.mem_map.mp hfrom
  obtain ⟨document, -, hat⟩ := List.mem_filterMap.mp hbucket
  rw [bucketAt] at hat
  split at hat
  · rename_i report slot scope haddress
    obtain ⟨hname, -⟩ := Option.ite_none_right_eq_some.mp hat
    exact ⟨slot.resolution, hname⟩
  · cases hat

/-! ## The result -/

/-- **EVERY DOCUMENT OF A SNAPSHOT CAN BE FETCHED BY ITS TAG.**  The tags are distinct
    and parse back; the forty windows of the network are there and five documents
    of each instance a tag can name; and the index gives, resolution by
    resolution, the first and the last bucket there is. -/
theorem snapshot_fetchable (digest : String → String) (A : Floats F) (data : Data F)
    (coverage : Coverage) (snapshotId : String) (now : Int) (publisher : Publisher)
    (hprofiles : (data.profiles.map Stats.Profile.pubkey).Nodup) :
    ((Snapshot.compute digest A data coverage snapshotId now).documents.map
        fun document => document.address.toString).Nodup
      ∧ (∀ document ∈ (Snapshot.compute digest A data coverage snapshotId now).documents,
          Address.parse document.address.toString = .ok document.address)
      ∧ (∀ address ∈ networkWindows, ∃ document ∈
          (Snapshot.compute digest A data coverage snapshotId now).documents,
            document.address = address)
      ∧ (∀ profile ∈ data.profiles, ∀ hhex : isHex64 profile.pubkey = true,
          ((Snapshot.compute digest A data coverage snapshotId now).documents.map
              Document.address).filter (Address.scopedTo profile.pubkey)
            = Window.every.map fun span =>
                .window .orders span (some (.instance' profile.pubkey hhex)))
      ∧ (∀ resolution : Resolution,
          FirstToLast
            ((Snapshot.compute digest A data coverage snapshotId now).published resolution)
            ((Snapshot.compute digest A data coverage snapshotId now).index
              publisher).resolutions[resolution.asStr]?)
      ∧ ∀ name : String, ((Snapshot.compute digest A data coverage snapshotId now).index
            publisher).resolutions[name]? ≠ none →
          ∃ resolution : Resolution, resolution.asStr = name := by
  refine ⟨?_, fun document _ => parse_toString document.address, ?_, ?_,
    fun resolution => resolutions_firstToLast _ publisher resolution,
    fun name hname => resolution_of_name hname⟩
  · refine List.pairwise_map.mpr ((compute_apart hprofiles).imp fun hapart heq => ?_)
    exact hapart (toString_injective heq)
  · intro address hmem
    obtain ⟨report, -, hspan⟩ := List.mem_flatMap.mp hmem
    obtain ⟨span, -, rfl⟩ := List.mem_map.mp hspan
    exact Snapshot.exists_window digest A data coverage snapshotId now report span
  · intro profile hprofile hhex
    exact filter_scopedTo hprofiles hprofile hhex

/-- One instance over three days: its five documents, and daily partitions from the
    first month to the last. -/
theorem oneInstance_fetchable :
    ((Snapshot.compute id .whole oneInstance threeDays "1" 1772323200).documents.map
        fun document => document.address.toString).Nodup
      ∧ FirstToLast
          ((Snapshot.compute id .whole oneInstance threeDays "1" 1772323200).published .daily)
          ((Snapshot.compute id .whole oneInstance threeDays "1" 1772323200).index
            ⟨"bestiario", "0.1.0"⟩).resolutions["daily"]? := by
  have hprofiles : (oneInstance.profiles.map Stats.Profile.pubkey).Nodup := by decide +kernel
  generalize oneInstance = data at hprofiles ⊢
  obtain ⟨hdistinct, -, -, -, hspans, -⟩ := snapshot_fetchable id .whole data threeDays "1"
    1772323200 ⟨"bestiario", "0.1.0"⟩ hprofiles
  exact ⟨hdistinct, hspans .daily⟩

end Publish
