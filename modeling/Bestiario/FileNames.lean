import Bestiario.Address
import Bestiario.Lib.Codes

/-! # The files of `--out`

    `write` of `src/commands/publish.rs`: every document as `<d>.json`, with `:`
    folded to `-` so that the name is a filename on every filesystem.  The dash is
    not free: `dev-fees` has one, a month has one, and so after folding an address is
    not cut at its dashes.

    It is still read from the front.  An address opens with a word out of ten, and
    whatever follows it is again out of few, or of one width; only the scope at the
    end is of any length, and nothing comes after it. -/

namespace Publish

open Codes Timestamp

/-! ## Writing -/

/-- The colon and the dash it becomes. -/
def fold (c : Char) : Char := if c = ':' then '-' else c

/-- `replace(':', "-")`. -/
def folded (text : String) : String := text.map fold

/-- The file a document is written to. -/
def fileName (address : String) : String := folded address ++ ".json"

/-- A directory: what each file in it holds. -/
abbrev Directory : Type := String → Option String

/-- `fs::write`: what the file held is gone. -/
def Directory.put (directory : Directory) (name content : String) : Directory :=
  Function.update directory name (some content)

/-- `write`: one file after another. -/
def write (documents : List (String × String)) (directory : Directory) : Directory :=
  documents.foldl (fun directory document => directory.put (fileName document.1) document.2)
    directory

/-! ## Folding -/

/-- Folding changes nothing but colons. -/
theorem map_fold {text : List Char} (h : ':' ∉ text) : text.map fold = text := by
  induction text with
  | nil => rfl
  | cons c text ih =>
      obtain ⟨hc, htext⟩ := not_or.mp fun hmem => h (List.mem_cons.mpr hmem)
      rw [List.map_cons, ih htext, fold, if_neg fun heq => hc heq.symm]

theorem toList_folded (text : String) : (folded text).toList = text.toList.map fold :=
  String.toList_map

/-! ## Words -/

/-- What a folded address opens with. -/
inductive Opening where
  | index
  | series
  | report (report : Report)
  deriving DecidableEq

namespace Opening

def text : Opening → List Char
  | .index => "index".toList
  | .series => "series-".toList
  | .report r => r.asStr.toList ++ ['-']

def all : List Opening := .index :: .series :: Report.all.map .report

theorem prefixFree : PrefixFree text := by
  refine prefixFree_of_all all ?_ (by decide)
  intro a
  cases a with
  | index => decide
  | series => decide
  | report r => cases r <;> decide

end Opening

theorem Report.prefixFree : PrefixFree fun r : Report => r.asStr.toList ++ ['-'] := by
  refine prefixFree_of_all Report.all ?_ (by decide)
  intro r
  cases r <;> decide

theorem Window.prefixFree : PrefixFree fun w : Window => w.asStr.toList := by
  refine prefixFree_of_all Window.every ?_ (by decide)
  intro w
  cases w <;> decide

theorem Resolution.prefixFree : PrefixFree fun r : Resolution => r.asStr.toList ++ ['-'] := by
  refine prefixFree_of_all Resolution.all ?_ (by decide)
  intro r
  cases r <;> decide

/-- Four digits. -/
theorem Year.prefixFree : PrefixFree fun y : Year => y.toString.toList := by
  refine prefixFree_of_length ?_ ?_
  · intro y y' h
    have htext : y.toString = y'.toString := String.toList_inj.mp h
    exact Option.some_inj.mp ((year_eq_some.mpr rfl).symm.trans (year_eq_some.mpr htext))
  · intro y y'
    simp only [Year.toString, String.toList_ofList, length_pad]

/-- Two digits. -/
theorem Month.prefixFree : PrefixFree fun m : Month => m.toString.toList := by
  refine prefixFree_of_length ?_ ?_
  · intro m m' h
    have htext : m.toString = m'.toString := String.toList_inj.mp h
    exact Option.some_inj.mp ((month_eq_some.mpr rfl).symm.trans (month_eq_some.mpr htext))
  · intro m m'
    simp only [Month.toString, String.toList_ofList, length_pad]

theorem Bucket.toList_month (y : Year) (m : Month) :
    (Bucket.toString (.month y m)).toList = y.toString.toList ++ '-' :: m.toString.toList := by
  simp [Bucket.toString]

/-- A resolution, and a bucket of the shape it calls for. -/
theorem Partition.prefixFree : PrefixFree fun p : Partition =>
    (p.resolution.asStr.toList ++ ['-']) ++ p.bucket.toString.toList := by
  rintro ⟨resolution, bucket, hfits⟩ ⟨resolution', bucket', hfits'⟩ ⟨rest, heq⟩
  rw [List.append_assoc] at heq
  obtain ⟨hres, hrest⟩ := Resolution.prefixFree.append_inj heq
  cases hres
  have hbucket : bucket = bucket' := by
    cases bucket with
    | month y m =>
        cases bucket' with
        | month y' m' =>
            rw [Bucket.toList_month, Bucket.toList_month, List.append_assoc,
              List.cons_append] at hrest
            obtain ⟨hy, hmonth⟩ := Year.prefixFree.append_inj hrest
            rw [hy, Month.prefixFree m m' ⟨rest, (List.cons_eq_cons.mp hmonth).2⟩]
        | year y' => cases resolution <;> simp [Bucket.fits] at hfits hfits'
    | year y =>
        cases bucket' with
        | month y' m' => cases resolution <;> simp [Bucket.fits] at hfits hfits'
        | year y' => rw [Year.prefixFree y y' ⟨rest, hrest⟩]
  cases hbucket
  rfl

/-! ## Scopes -/

/-- A folded scope. -/
def scopeText (scope : Option Scope) : List Char := (rendered scope).toList.map fold

theorem scopeText_instance (pubkey : String) (h : isHex64 pubkey = true) :
    scopeText (some (.instance' pubkey h)) = '-' :: 'i' :: '-' :: pubkey.toList := by
  have hcolon := Scope.colon_notMem (.instance' pubkey h) pubkey (by simp [Scope.segments])
  have htext : (rendered (some (.instance' pubkey h))).toList
      = ':' :: 'i' :: ':' :: pubkey.toList := by
    simp [rendered, Scope.toString]
  rw [scopeText, htext, List.map_cons, List.map_cons, List.map_cons, map_fold hcolon]
  rfl

theorem scopeText_network (name : String) (h : networks.contains name = true) :
    scopeText (some (.network name h)) = '-' :: 'n' :: '-' :: name.toList := by
  have hcolon := Scope.colon_notMem (.network name h) name (by simp [Scope.segments])
  have htext : (rendered (some (.network name h))).toList
      = ':' :: 'n' :: ':' :: name.toList := by
    simp [rendered, Scope.toString]
  rw [scopeText, htext, List.map_cons, List.map_cons, List.map_cons, map_fold hcolon]
  rfl

/-- Nothing, or a letter between dashes and a word without a colon. -/
theorem scopeText_injective : Function.Injective scopeText := by
  have hnone : scopeText none = [] := rfl
  intro scope scope' h
  rcases scope with _ | ⟨pubkey, hex⟩ | ⟨name, hname⟩
  · rcases scope' with _ | ⟨pubkey', hex'⟩ | ⟨name', hname'⟩
    · rfl
    · rw [hnone, scopeText_instance] at h
      cases h
    · rw [hnone, scopeText_network] at h
      cases h
  · rcases scope' with _ | ⟨pubkey', hex'⟩ | ⟨name', hname'⟩
    · rw [hnone, scopeText_instance] at h
      cases h
    · rw [scopeText_instance, scopeText_instance] at h
      simp only [List.cons.injEq, true_and, String.toList_inj] at h
      cases h
      rfl
    · rw [scopeText_instance, scopeText_network] at h
      simp at h
  · rcases scope' with _ | ⟨pubkey', hex'⟩ | ⟨name', hname'⟩
    · rw [hnone, scopeText_network] at h
      cases h
    · rw [scopeText_instance, scopeText_network] at h
      simp at h
    · rw [scopeText_network, scopeText_network] at h
      simp only [List.cons.injEq, true_and, String.toList_inj] at h
      cases h
      rfl

/-! ## Reading an address back -/

namespace Address

def opening : Address → Opening
  | .index _ => .index
  | .window r _ _ => .report r
  | .series _ _ _ => .series

/-- What follows the opening. -/
def remainder : Address → List Char
  | .index year => year.elim [] fun y => '-' :: y.toString.toList
  | .window _ w scope => w.asStr.toList ++ scopeText scope
  | .series r p scope =>
      (r.asStr.toList ++ ['-']) ++ ((p.resolution.asStr.toList ++ ['-'])
        ++ p.bucket.toString.toList ++ scopeText scope)

/-- A folded address is its opening and what follows it. -/
theorem toList_folded (a : Address) :
    (folded a.toString).toList = a.opening.text ++ a.remainder := by
  rw [Publish.toList_folded]
  rcases a with (_ | y) | ⟨r, w, scope⟩ | ⟨r, p, scope⟩
  · decide
  · have htext : (Address.toString (.index (some y))).toList
        = "index:".toList ++ y.toString.toList := by
      simp [Address.toString]
    rw [htext, List.map_append, map_fold y.colon_notMem]
    rfl
  · have htext : (Address.toString (.window r w scope)).toList
        = r.asStr.toList ++ ':' :: (w.asStr.toList ++ (rendered scope).toList) := by
      simp [Address.toString]
    rw [htext, List.map_append, List.map_cons, List.map_append, map_fold r.colon_notMem,
      map_fold w.colon_notMem]
    show r.asStr.toList ++ '-' :: (w.asStr.toList ++ scopeText scope)
      = (r.asStr.toList ++ ['-']) ++ (w.asStr.toList ++ scopeText scope)
    rw [List.append_assoc, List.singleton_append]
  · have htext : (Address.toString (.series r p scope)).toList
        = "series:".toList ++ (r.asStr.toList ++ ':' :: (p.resolution.asStr.toList
          ++ ':' :: (p.bucket.toString.toList ++ (rendered scope).toList))) := by
      simp [Address.toString]
    rw [htext, List.map_append, List.map_append, List.map_cons, List.map_append, List.map_cons,
      List.map_append, map_fold r.colon_notMem, map_fold p.resolution.colon_notMem,
      map_fold p.bucket.colon_notMem]
    show "series-".toList ++ (r.asStr.toList ++ '-' :: (p.resolution.asStr.toList
          ++ '-' :: (p.bucket.toString.toList ++ scopeText scope)))
      = "series-".toList ++ ((r.asStr.toList ++ ['-']) ++ ((p.resolution.asStr.toList ++ ['-'])
        ++ p.bucket.toString.toList ++ scopeText scope))
    simp

/-- **AN ADDRESS IS KNOWN FROM ITS FOLDED TEXT.** -/
theorem folded_injective {a b : Address} (h : folded a.toString = folded b.toString) : a = b := by
  have htext := congrArg String.toList h
  rw [toList_folded, toList_folded] at htext
  obtain ⟨hopening, hrest⟩ := Opening.prefixFree.append_inj htext
  cases a with
  | index year =>
      cases b with
      | index year' =>
          cases year with
          | none =>
              cases year' with
              | none => rfl
              | some y' => cases hrest
          | some y =>
              cases year' with
              | none => cases hrest
              | some y' =>
                  have hy := (List.cons_eq_cons.mp hrest).2
                  rw [Year.prefixFree y y' ⟨[], (List.append_nil _).trans hy⟩]
      | window r' w' scope' => cases hopening
      | series r' p' scope' => cases hopening
  | window r w scope =>
      cases b with
      | index year' => cases hopening
      | window r' w' scope' =>
          cases hopening
          obtain ⟨rfl, hscope⟩ := Window.prefixFree.append_inj hrest
          rw [scopeText_injective hscope]
      | series r' p' scope' => cases hopening
  | series r p scope =>
      cases b with
      | index year' => cases hopening
      | window r' w' scope' => cases hopening
      | series r' p' scope' =>
          obtain ⟨rfl, hpartition⟩ := Report.prefixFree.append_inj hrest
          obtain ⟨rfl, hscope⟩ := Partition.prefixFree.append_inj hpartition
          rw [scopeText_injective hscope]

end Address

/-! ## What the directory holds -/

theorem fileName_injective {a b : Address} (h : fileName a.toString = fileName b.toString) :
    a = b :=
  Address.folded_injective (String.append_left_inj ".json" |>.mp h)

/-- Writing leaves the files of other names as they were. -/
theorem write_of_notMem (documents : List (String × String)) (directory : Directory)
    {name : String} (h : ∀ document ∈ documents, fileName document.1 ≠ name) :
    write documents directory name = directory name := by
  induction documents generalizing directory with
  | nil => rfl
  | cons document rest ih =>
      rw [write, List.foldl_cons]
      have hrest := ih (directory.put (fileName document.1) document.2)
        fun other hother => h other (List.mem_cons_of_mem document hother)
      rw [write] at hrest
      rw [hrest, Directory.put, Function.update_of_ne (h document List.mem_cons_self).symm]

/-- **NO FILE IS WRITTEN TWICE**: where no address is, every document ends up in its
    own file. -/
theorem write_of_mem {documents : List (Address × String)} {directory : Directory}
    (h : (documents.map Prod.fst).Nodup) {document : Address × String}
    (hmem : document ∈ documents) :
    write (documents.map fun document => (document.1.toString, document.2)) directory
      (fileName document.1.toString) = some document.2 := by
  induction documents generalizing directory with
  | nil => cases hmem
  | cons first rest ih =>
      obtain ⟨hfirst, hnodup⟩ := List.nodup_cons.mp h
      rw [List.map_cons, write, List.foldl_cons]
      rcases List.mem_cons.mp hmem with rfl | hrest
      · have hothers : ∀ other ∈ rest.map fun document => (document.1.toString, document.2),
            fileName other.1 ≠ fileName document.1.toString := by
          intro other hother hsame
          obtain ⟨source, hsource, rfl⟩ := List.mem_map.mp hother
          exact hfirst (fileName_injective hsame ▸ List.mem_map_of_mem hsource)
        have hkept := write_of_notMem (rest.map fun document => (document.1.toString, document.2))
          (directory.put (fileName document.1.toString) document.2) hothers
        rw [write] at hkept
        rw [hkept, Directory.put, Function.update_self]
      · exact ih hnodup hrest

/-- **FILES NEVER OVERWRITE EACH OTHER**: two addresses that fold to one text are one,
    and so a directory written from documents of distinct addresses holds them all. -/
theorem files_never_overwrite :
    (∀ a b : Address, folded a.toString = folded b.toString → a = b)
      ∧ ∀ (documents : List (Address × String)) (directory : Directory),
          (documents.map Prod.fst).Nodup → ∀ document ∈ documents,
            write (documents.map fun document => (document.1.toString, document.2)) directory
              (fileName document.1.toString) = some document.2 := by
  constructor
  · intro a b h
    exact Address.folded_injective h
  · intro documents directory hnodup document hmem
    exact write_of_mem hnodup hmem

end Publish
