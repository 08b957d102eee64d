import Bestiario.Absence

/-! # Totals

    What is counted once is published many times over: for the network and for
    each instance, for each and for all currencies, over windows and in series.
    Each figure is read back from the document that carries it, and all of them
    count the same orders by the same rule.

    * Over currencies and over instances the counts add up.
    * Over the months of the series they add up to more than the window `all`
      says, by the orders of the very second the archive ends at. -/

namespace Publish

open Calendar Tiling Groups
open Stats (Metric Value Floats Data Family Order Period dotted)

variable {F : Type} {digest : String → String} {A : Floats F} {data : Data F}
  {coverage : Coverage} {snapshotId : String} {now : Int}

/-! ## Reading a figure back -/

/-- The metrics a payload carries. -/
def Payload.metrics : Payload F → List (Metric F)
  | .window payload => payload.metrics
  | .series _ => []

/-- The count under a name; what is absent contributes nothing. -/
def countOf (metrics : List (Metric F)) (name : String) : Int :=
  (metrics.find? fun m => m.name == name).elim 0 fun m =>
    match m.value with
    | .count n => n
    | _ => 0

namespace Snapshot

/-- The document at an address. -/
def document? (snapshot : Snapshot F) (address : Address) : Option (Document F) :=
  snapshot.documents.find? fun document => decide (document.address = address)

/-- A count of a published document. -/
def figure (snapshot : Snapshot F) (address : Address) (name : String) : Int :=
  (snapshot.document? address).elim 0 fun document =>
    countOf document.envelope.payload.metrics name

theorem document?_window (report : Report) (span : Window) :
    (compute digest A data coverage snapshotId now).document? (.window report span none)
      = some (computed digest A ⟨snapshotId, now⟩ (.window report span none) none
          (windowAnswer A data coverage now report span)) := by
  refine find?_eq_some_of_unique (mem_compute.mpr (.inl ⟨report, span, rfl⟩)) (by simp [computed])
    fun document hmem haddress => ?_
  have haddress := of_decide_eq_true haddress
  rcases mem_compute.mp hmem with ⟨_, _, rfl⟩ | ⟨_, _, _, -, -, -, rfl⟩ | ⟨_, -, _, _, -, rfl⟩
  · cases haddress
    rfl
  · cases haddress
  · cases haddress

theorem document?_scoped {profile : Stats.Profile F} (hprofile : profile ∈ data.profiles)
    {scope : Scope} (hscope : Scope.ofInstance profile.pubkey = some scope) (span : Window) :
    (compute digest A data coverage snapshotId now).document? (.window .orders span (some scope))
      = some (computed digest A ⟨snapshotId, now⟩ (.window .orders span (some scope)) none
          (scopedAnswer A data coverage now profile.pubkey span)) := by
  refine find?_eq_some_of_unique
    (mem_compute.mpr (.inr (.inr ⟨profile, hprofile, scope, span, hscope, rfl⟩)))
    (by simp [computed]) fun document hmem haddress => ?_
  have haddress := of_decide_eq_true haddress
  rcases mem_compute.mp hmem with ⟨_, _, rfl⟩ | ⟨_, _, _, -, -, -, rfl⟩ |
    ⟨other, -, _, _, hother, rfl⟩
  · cases haddress
  · cases haddress
  · cases haddress
    obtain ⟨_, rfl⟩ := ofInstance_eq_some.mp hscope
    obtain ⟨_, heq⟩ := ofInstance_eq_some.mp hother
    have hpubkey : profile.pubkey = other.pubkey := by injection heq
    rw [← hpubkey]

end Snapshot

/-! ## Names cut at their last dot -/

/-- A dotted name names its scope and its last word. -/
theorem dotted_cut {scope scope' word word' : String} (h : '.' ∉ word.toList)
    (h' : '.' ∉ word'.toList) (heq : dotted scope word = dotted scope' word') :
    scope = scope' ∧ word = word' := by
  have hlist := congrArg String.toList heq
  simp only [dotted, String.toList_append, List.append_assoc] at hlist
  obtain ⟨hscope, hword⟩ := Segments.last_cut_inj h h' hlist
  exact ⟨String.toList_inj.mp hscope, String.toList_inj.mp hword⟩

/-- The words of the activity block. -/
def activityWords : List String :=
  ["created", "completed", "canceled", "completion_rate", "abandonment_rate", "created_delta",
    "completed_delta", "open_now", "in_progress_now"]

theorem activityWord_dot {word : String} (h : word ∈ activityWords) : '.' ∉ word.toList := by
  revert word
  decide

theorem name_of_activity {scope : String} {activity : Stats.Activity F} :
    ∀ m ∈ Stats.activityMetrics A scope activity, ∃ word ∈ activityWords,
      m.name = dotted scope word := by
  simp [Stats.activityMetrics, Stats.datedMetrics, activityWords, Stats.Family.dotted_inj]

/-! ## What is counted -/

/-- The four counts that add up. -/
inductive Counted where
  | created
  | completed
  | canceled
  | openNow
  deriving DecidableEq, Repr

namespace Counted

def word : Counted → String
  | .created => "created"
  | .completed => "completed"
  | .canceled => "canceled"
  | .openNow => "open_now"

/-- Whether an order counts. -/
def counts (window : Stats.Window) (now : Int) : Counted → Order F → Bool
  | .created, order => order.created.any window.contains
  | .completed, order => order.completed.any window.contains
  | .canceled, order => order.canceled.any window.contains
  | .openNow, order => order.isOpen now

theorem word_mem (counted : Counted) : counted.word ∈ activityWords := by
  cases counted <;> decide

/-- The figure of a block is the number of orders that count. -/
theorem of_activity (counted : Counted) (scope : String) (orders : List (Order F))
    (window : Stats.Window) :
    countOf (Stats.activityMetrics A scope (Stats.summarise A orders window now))
        (dotted scope counted.word)
      = orders.countP (counted.counts window now) := by
  cases counted <;>
    simp [countOf, Stats.activityMetrics, Stats.datedMetrics, word, Family.dotted_inj] <;> rfl

/-- The block has the figure. -/
theorem isSome_activity (counted : Counted) (scope : String) (activity : Stats.Activity F) :
    ((Stats.activityMetrics A scope activity).find? fun m =>
      m.name == dotted scope counted.word).isSome = true := by
  cases counted <;>
    simp [Stats.activityMetrics, Stats.datedMetrics, word, Family.dotted_inj]

end Counted

/-! ## Blocks by currency -/

variable {counted : Counted} {window : Stats.Window}

theorem countOf_append_of_some {l l' : List (Metric F)} {name : String}
    (h : (l.find? fun m => m.name == name).isSome = true) :
    countOf (l ++ l') name = countOf l name := by
  rw [countOf, countOf, List.find?_append, Option.or_of_isSome h]

theorem countOf_append_of_none {l l' : List (Metric F)} {name : String}
    (h : (l.find? fun m => m.name == name) = none) :
    countOf (l ++ l') name = countOf l' name := by
  rw [countOf, countOf, List.find?_append, h, Option.none_or]

/-- The whole block is not named after a currency. -/
theorem find_whole_block (activity : Stats.Activity F) (code : String) :
    ((Stats.activityMetrics A "orders" activity).find? fun m =>
      m.name == dotted ("orders." ++ code) counted.word) = none := by
  rw [List.find?_eq_none]
  intro m hm heq
  obtain ⟨word, hword, hname⟩ := name_of_activity m hm
  have hcut := dotted_cut (activityWord_dot hword) (activityWord_dot counted.word_mem)
    (hname.symm.trans (eq_of_beq heq))
  have hlen := congrArg String.length hcut.1
  rw [String.length_append] at hlen
  have hshort : "orders".length < "orders.".length := by decide
  omega

/-- **A CURRENCY'S FIGURE IS THE COUNT OF ITS ORDERS**, whether its block is
    published or left out. -/
theorem countOf_blocks {block : String → List (Order F) → List (Metric F)}
    (hnames : ∀ code group, ∀ m ∈ block code group, ∃ word ∈ activityWords,
      m.name = dotted ("orders." ++ code) word)
    (hblock : ∀ code group, countOf (block code group) (dotted ("orders." ++ code) counted.word)
      = (group.countP (counted.counts window now) : Nat))
    (orders : List (Order F)) (code : String) :
    countOf ((Stats.sliceFiat orders).flatMap fun entry => block entry.1 entry.2)
        (dotted ("orders." ++ code) counted.word)
      = ((orders.filter fun order => decide (order.fiatCode = code)).countP
          (counted.counts window now) : Nat) := by
  have hother : ∀ other, other ≠ code → ((block other (orders.filter fun order =>
      decide (order.fiatCode = other))).find? fun m =>
        m.name == dotted ("orders." ++ code) counted.word) = none := by
    intro other hne
    rw [List.find?_eq_none]
    intro m hm heq
    obtain ⟨word, hword, hname⟩ := hnames _ _ m hm
    have hcut := dotted_cut (activityWord_dot hword) (activityWord_dot counted.word_mem)
      (hname.symm.trans (eq_of_beq heq))
    exact hne (String.append_right_inj _ |>.mp hcut.1)
  rw [Stats.sliceFiat, Groups.groups, List.flatMap_map, countOf, find?_flatMap hother]
  split
  · exact hblock code _
  · rename_i hmissing
    rw [filter_eq_nil hmissing]
    rfl

theorem traded_eq_false {counts : List Nat} : traded counts = false ↔ ∀ n ∈ counts, n = 0 := by
  rw [traded, List.any_eq_false]
  exact forall₂_congr fun n _ => by simp

/-- A count is one of the four a block has. -/
theorem Counted.mem_activity (counted : Counted) (group : List (Order F)) :
    group.countP (counted.counts window now)
      ∈ [(Stats.summarise A group window now).created,
        (Stats.summarise A group window now).completed,
        (Stats.summarise A group window now).canceled,
        (Stats.summarise A group window now).openNow] := by
  cases counted with
  | created => exact List.mem_cons_self
  | completed => exact List.mem_cons_of_mem _ List.mem_cons_self
  | canceled => exact List.mem_cons_of_mem _ (List.mem_cons_of_mem _ List.mem_cons_self)
  | openNow =>
      exact List.mem_cons_of_mem _ (List.mem_cons_of_mem _ (List.mem_cons_of_mem _
        List.mem_cons_self))

theorem countOf_fiatBlock (code : String) (group : List (Order F)) :
    countOf (fiatBlock A window now code group) (dotted ("orders." ++ code) counted.word)
      = (group.countP (counted.counts window now) : Nat) := by
  simp only [fiatBlock, List.map_cons, List.map_nil]
  split
  · rename_i huntraded
    have hzero : group.countP (counted.counts window now) = 0 :=
      traded_eq_false.mp (by simpa using huntraded) _ (counted.mem_activity (A := A) group)
    rw [hzero]
    rfl
  · cases counted <;> simp [countOf, Counted.word, dotted] <;> rfl

theorem countOf_instanceBlock (code : String) (group : List (Order F)) :
    countOf (instanceBlock A window now code group) (dotted ("orders." ++ code) counted.word)
      = (group.countP (counted.counts window now) : Nat) := by
  rw [instanceBlock]
  split
  · rename_i huntraded
    have hmem : group.countP (counted.counts window now) ∈ [_, _, _, _, _] :=
      List.mem_append_left [(Stats.summarise A group window now).inProgressNow]
        (counted.mem_activity (A := A) group)
    have hzero : group.countP (counted.counts window now) = 0 :=
      traded_eq_false.mp (by simpa using huntraded) _ hmem
    rw [hzero]
    rfl
  · exact counted.of_activity _ group window

theorem name_of_fiatBlock (code : String) (group : List (Order F)) :
    ∀ m ∈ fiatBlock A window now code group, ∃ word ∈ activityWords,
      m.name = dotted ("orders." ++ code) word := by
  rw [fiatBlock]
  intro m hm
  split at hm
  · cases hm
  · simp only [List.map_cons, List.map_nil, List.mem_cons, List.not_mem_nil, or_false] at hm
    rcases hm with rfl | rfl | rfl | rfl
    exacts [⟨"created", by decide, rfl⟩, ⟨"completed", by decide, rfl⟩,
      ⟨"canceled", by decide, rfl⟩, ⟨"open_now", by decide, rfl⟩]

theorem name_of_instanceBlock (code : String) (group : List (Order F)) :
    ∀ m ∈ instanceBlock A window now code group, ∃ word ∈ activityWords,
      m.name = dotted ("orders." ++ code) word := by
  rw [instanceBlock]
  intro m hm
  split at hm
  · cases hm
  · exact name_of_activity m hm

/-! ## The volume block's share of a currency -/

theorem countOf_append_none {l l' : List (Metric F)} {name : String}
    (h : (l'.find? fun m => m.name == name) = none) : countOf (l ++ l') name = countOf l name := by
  rw [countOf, countOf, List.find?_append, h, Option.or_none]

/-- The orders completed in a window are those the activity block counts. -/
theorem length_completedIn (orders : List (Order F)) (p : Order F → Bool) :
    ((Stats.completedIn orders window).filter p).length
      = (orders.filter p).countP (Counted.completed.counts window now) := by
  rw [Stats.completedIn, ← List.countP_eq_length_filter, List.countP_filter, List.countP_filter,
    List.countP_filter]
  refine List.countP_congr fun order _ => ?_
  by_cases hstatus : order.status = .success <;>
    simp [Counted.counts, Order.completed, hstatus, and_comm]

/-- A metric of a block, by the names the block has. -/
theorem find_of_shape {l : List (Metric F)} {figures : List (String × Bool)}
    (hshape : l.map Metric.shape = figures.map Family.volume.named) {name : String}
    (h : ∀ figure ∈ figures, figure.1 ≠ name) :
    (l.find? fun m => m.name == dotted "volume" name) = none := by
  rw [List.find?_eq_none]
  intro m hm heq
  have hmem : m.shape ∈ figures.map Family.volume.named :=
    hshape ▸ List.mem_map_of_mem hm
  obtain ⟨figure, hfigure, hnamed⟩ := List.mem_map.mp hmem
  have hname : dotted "volume" figure.1 = m.name := congrArg Prod.fst hnamed
  exact h figure hfigure (Family.dotted_inj.mp (hname.trans (eq_of_beq heq)))

theorem countOf_fiatMetrics (code : String) (fiat : Stats.FiatVolume F) :
    countOf (Stats.Volume.fiatMetrics A "volume" code fiat)
      (dotted "volume" (Stats.fiatName code "completed")) = fiat.completed := by
  simp [countOf, Stats.Volume.fiatMetrics, Family.dotted_inj, Stats.fiatName]
  rfl

/-- One currency's share of what was completed. -/
def fiatShare (A : Floats F) (orders : List (Order F)) (window : Stats.Window) (code : String) :
    Stats.FiatVolume F :=
  let group := (Stats.completedIn orders window).filter fun order => decide (order.fiatCode = code)
  Stats.fiatVolume A (group.filterMap Order.fiatAmount) (group.map Order.amountSats)

theorem fiat_flatMap (orders : List (Order F)) :
    ((Stats.Volume.summarise A orders window).fiat.flatMap fun (code, fiat) =>
        Stats.Volume.fiatMetrics A "volume" code fiat)
      = (keysOf ((Stats.completedIn orders window).map Order.fiatCode)).flatMap fun code =>
          Stats.Volume.fiatMetrics A "volume" code (fiatShare A orders window code) := by
  rw [Stats.Volume.summarise, Groups.groups, List.map_map, List.flatMap_map]
  rfl

/-- **THE VOLUME BLOCK COUNTS THE SAME ORDERS** in each currency. -/
theorem countOf_volume (data : Data F) (code : String) :
    countOf (Family.volume.metrics A data window now)
        (dotted "volume" (Stats.fiatName code "completed"))
      = ((data.orders.filter fun order => decide (order.fiatCode = code)).countP
          (Counted.completed.counts window now) : Nat) := by
  have hword : (("completed", true) : String × Bool) ∈ Stats.fiatWords := by decide
  have hfixed : ((Stats.Volume.fixedMetrics "volume"
      (Stats.Volume.summarise A data.orders window)).find? fun m =>
        m.name == dotted "volume" (Stats.fiatName code "completed")) = none :=
    find_of_shape (Stats.shape_fixedMetrics A data.orders window) fun figure hfigure =>
      Stats.other_ne_fiat data (.inl hfigure) code "completed"
  have hconverted : ((data.priced.elim [] fun priced => Stats.Converted.metrics A "volume"
      (Stats.Converted.convert A data.orders window priced.book priced.code)).find? fun m =>
        m.name == dotted "volume" (Stats.fiatName code "completed")) = none :=
    find_of_shape (Family.shape_converted A data window) fun figure hfigure =>
      Stats.other_ne_fiat data (.inr hfigure) code "completed"
  have hother : ∀ other, other ≠ code → ((Stats.Volume.fiatMetrics A "volume" other
      (fiatShare A data.orders window other)).find? fun m =>
        m.name == dotted "volume" (Stats.fiatName code "completed")) = none := by
    intro other hne
    refine find_of_shape (Stats.shape_fiatMetrics A other _) fun figure hfigure heq => hne ?_
    obtain ⟨word, hmem, rfl⟩ := List.mem_map.mp hfigure
    exact (Stats.fiatName_inj hmem hword heq).1
  rw [Family.metrics, countOf_append_none hconverted, Stats.Volume.metrics,
    countOf_append_of_none hfixed, fiat_flatMap, countOf, find?_flatMap hother,
    ← length_completedIn]
  split
  · refine (countOf_fiatMetrics code _).trans ?_
    simp only [fiatShare, Stats.fiatVolume, List.length_map]
  · rename_i hmissing
    rw [filter_eq_nil hmissing]
    rfl

/-! ## Figures of the documents -/

namespace Snapshot

variable (counted : Counted) (span : Window)

/-- The orders of one instance. -/
def ownOrders (data : Data F) (pubkey : String) : List (Order F) :=
  data.orders.filter fun order => order.pubkey == pubkey

theorem figure_network :
    (compute digest A data coverage snapshotId now).figure (.window .orders span none)
        (dotted "orders" counted.word)
      = (data.orders.countP (counted.counts (windowOf span coverage now) now) : Nat) := by
  rw [figure, document?_window, Option.elim_some]
  show countOf (Stats.activityMetrics A "orders" _ ++ _) _ = _
  rw [countOf_append_of_some (counted.isSome_activity _ _), counted.of_activity]

theorem figure_network_fiat (code : String) :
    (compute digest A data coverage snapshotId now).figure (.window .orders span none)
        (dotted ("orders." ++ code) counted.word)
      = ((data.orders.filter fun order => decide (order.fiatCode = code)).countP
          (counted.counts (windowOf span coverage now) now) : Nat) := by
  rw [figure, document?_window, Option.elim_some]
  show countOf (Stats.activityMetrics A "orders" _ ++ _) _ = _
  rw [countOf_append_of_none (find_whole_block _ code)]
  exact countOf_blocks name_of_fiatBlock countOf_fiatBlock data.orders code

theorem figure_scoped {profile : Stats.Profile F} (hprofile : profile ∈ data.profiles)
    (hhex : isHex64 profile.pubkey = true) :
    (compute digest A data coverage snapshotId now).figure
        (.window .orders span (Scope.ofInstance profile.pubkey)) (dotted "orders" counted.word)
      = ((ownOrders data profile.pubkey).countP
          (counted.counts (windowOf span coverage now) now) : Nat) := by
  have hscope := ofInstance_eq_some.mpr ⟨hhex, rfl⟩
  rw [hscope, figure, document?_scoped hprofile hscope, Option.elim_some]
  show countOf (Stats.activityMetrics A "orders" _ ++ _) _ = _
  rw [countOf_append_of_some (counted.isSome_activity _ _), counted.of_activity]
  rfl

theorem figure_scoped_fiat {profile : Stats.Profile F} (hprofile : profile ∈ data.profiles)
    (hhex : isHex64 profile.pubkey = true) (code : String) :
    (compute digest A data coverage snapshotId now).figure
        (.window .orders span (Scope.ofInstance profile.pubkey))
        (dotted ("orders." ++ code) counted.word)
      = (((ownOrders data profile.pubkey).filter fun order =>
          decide (order.fiatCode = code)).countP
          (counted.counts (windowOf span coverage now) now) : Nat) := by
  have hscope := ofInstance_eq_some.mpr ⟨hhex, rfl⟩
  rw [hscope, figure, document?_scoped hprofile hscope, Option.elim_some]
  show countOf (Stats.activityMetrics A "orders" _ ++ _) _ = _
  rw [countOf_append_of_none (find_whole_block _ code)]
  exact countOf_blocks name_of_instanceBlock countOf_instanceBlock _ code

theorem figure_volume (code : String) :
    (compute digest A data coverage snapshotId now).figure (.window .volume span none)
        (dotted "volume" (Stats.fiatName code "completed"))
      = ((data.orders.filter fun order => decide (order.fiatCode = code)).countP
          (Counted.completed.counts (windowOf span coverage now) now) : Nat) := by
  rw [figure, document?_window, Option.elim_some]
  exact countOf_volume data code

/-! ## Sums -/

/-- Counts over codes, as the documents carry them. -/
theorem sum_codes {codes : List String} (hcodes : codes.Nodup) {orders : List (Order F)}
    (hall : ∀ order ∈ orders, order.fiatCode ∈ codes) (p : Order F → Bool) :
    (codes.map fun code => (((orders.filter fun order =>
        decide (order.fiatCode = code)).countP p : Nat) : Int)).sum
      = (orders.countP p : Nat) := by
  rw [← sum_countP hcodes Order.fiatCode p orders hall, Nat.cast_list_sum, List.map_map]
  rfl

/-- Counts over instances, whatever the orders are narrowed to first. -/
theorem sum_instances {profiles : List (Stats.Profile F)}
    (hdistinct : (profiles.map Stats.Profile.pubkey).Nodup) {orders : List (Order F)}
    (hknown : ∀ order ∈ orders, order.pubkey ∈ profiles.map Stats.Profile.pubkey)
    (p : Order F → Bool) :
    (profiles.map fun profile => (((orders.filter fun order =>
        order.pubkey == profile.pubkey).countP p : Nat) : Int)).sum
      = (orders.countP p : Nat) := by
  rw [← sum_countP hdistinct Order.pubkey p orders hknown, Nat.cast_list_sum, List.map_map,
    List.map_map]
  refine congrArg List.sum (List.map_congr_left fun profile _ => ?_)
  simp only [Function.comp_apply, beq_eq_decide]

end Snapshot

/-- **PUBLISHED COUNTS ADD UP**: over the currencies of the network and of every
    instance, and over the instances; and the volume block counts, in each
    currency, the orders the activity block calls completed. -/
theorem counts_add_up {data : Data F}
    (hhex : ∀ profile ∈ data.profiles, isHex64 profile.pubkey = true)
    (hdistinct : (data.profiles.map Stats.Profile.pubkey).Nodup)
    (hknown : ∀ order ∈ data.orders, order.pubkey ∈ data.profiles.map Stats.Profile.pubkey)
    {codes : List String} (hcodes : codes.Nodup)
    (hall : ∀ order ∈ data.orders, order.fiatCode ∈ codes) (digest : String → String)
    (A : Floats F) (coverage : Coverage) (snapshotId : String) (now : Int) (span : Window)
    (counted : Counted) (snapshot : Snapshot F)
    (hsnapshot : snapshot = Snapshot.compute digest A data coverage snapshotId now) :
    (∀ report ∈ [Report.orders, .volume],
        (snapshot.document? (.window report span none)).isSome = true)
      ∧ (codes.map fun code => snapshot.figure (.window .orders span none)
          (dotted ("orders." ++ code) counted.word)).sum
        = snapshot.figure (.window .orders span none) (dotted "orders" counted.word)
      ∧ (∀ profile ∈ data.profiles,
          (snapshot.document? (.window .orders span (Scope.ofInstance profile.pubkey))).isSome
            = true
          ∧ (codes.map fun code => snapshot.figure
              (.window .orders span (Scope.ofInstance profile.pubkey))
              (dotted ("orders." ++ code) counted.word)).sum
            = snapshot.figure (.window .orders span (Scope.ofInstance profile.pubkey))
                (dotted "orders" counted.word))
      ∧ snapshot.figure (.window .orders span none) (dotted "orders" counted.word)
        = (data.profiles.map fun profile => snapshot.figure
            (.window .orders span (Scope.ofInstance profile.pubkey))
            (dotted "orders" counted.word)).sum
      ∧ ∀ code,
        snapshot.figure (.window .orders span none) (dotted ("orders." ++ code) counted.word)
          = (data.profiles.map fun profile => snapshot.figure
              (.window .orders span (Scope.ofInstance profile.pubkey))
              (dotted ("orders." ++ code) counted.word)).sum
        ∧ snapshot.figure (.window .volume span none)
            (dotted "volume" (Stats.fiatName code "completed"))
          = snapshot.figure (.window .orders span none)
              (dotted ("orders." ++ code) "completed") := by
  subst hsnapshot
  refine ⟨fun report _ => ?_, ?_, fun profile hprofile => ⟨?_, ?_⟩, ?_, fun code => ⟨?_, ?_⟩⟩
  · rw [Snapshot.document?_window, Option.isSome_some]
  · simp only [Snapshot.figure_network_fiat, Snapshot.figure_network]
    exact Snapshot.sum_codes hcodes hall _
  · have hscope := Snapshot.ofInstance_eq_some.mpr ⟨hhex profile hprofile, rfl⟩
    rw [hscope, Snapshot.document?_scoped hprofile hscope, Option.isSome_some]
  · simp only [Snapshot.figure_scoped_fiat counted span hprofile (hhex profile hprofile),
      Snapshot.figure_scoped counted span hprofile (hhex profile hprofile)]
    exact Snapshot.sum_codes hcodes (fun order horder => hall order (List.mem_of_mem_filter horder))
      _
  · rw [Snapshot.figure_network, List.map_congr_left fun profile hprofile =>
      Snapshot.figure_scoped counted span hprofile (hhex profile hprofile)]
    exact (Snapshot.sum_instances hdistinct hknown _).symm
  · rw [Snapshot.figure_network_fiat, List.map_congr_left fun profile hprofile =>
      Snapshot.figure_scoped_fiat counted span hprofile (hhex profile hprofile) code]
    rw [← Snapshot.sum_instances hdistinct (fun order horder =>
      hknown order (List.mem_of_mem_filter horder))]
    -- An instance's own orders of a code are the orders of that code that are its own.
    refine congrArg List.sum (List.map_congr_left fun profile _ => ?_)
    rw [Snapshot.ownOrders, List.filter_comm]
  · rw [Snapshot.figure_volume]
    exact (Snapshot.figure_network_fiat .completed span code).symm

/-- One instance, and two orders it settled. -/
def onePublisher : String := "aaaaaaaaaaaaaaaaaaaaaaaaaaaaaaaaaaaaaaaaaaaaaaaaaaaaaaaaaaaaaaaa"

def oneInstance : Data Int :=
  { noData with
    orders := [{ settledOrder "ARS" 1769904060 with pubkey := onePublisher },
      { settledOrder "USD" 1769904120 with pubkey := onePublisher }]
    profiles := [⟨onePublisher, none, "a", none, none, none, none, none, [], [], none, 0, 0⟩] }

theorem oneInstance_adds_up :
    (["ARS", "USD"].map fun code =>
        (Snapshot.compute id .whole oneInstance threeDays "1" 1772323200).figure
          (.window .orders .all none) (dotted ("orders." ++ code) "created")).sum
      = (Snapshot.compute id .whole oneInstance threeDays "1" 1772323200).figure
          (.window .orders .all none) (dotted "orders" "created") :=
  (counts_add_up (show ∀ profile ∈ oneInstance.profiles, isHex64 profile.pubkey = true by
      decide +kernel) (by decide +kernel) (by decide +kernel)
    (show ["ARS", "USD"].Nodup by decide) (by decide +kernel) id .whole threeDays "1" 1772323200
    .all .created _ rfl).2.1

end Publish
