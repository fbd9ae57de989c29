import Mathlib
import RecordServer.Proofs.Index.Yield
import RecordServer.Proofs.Output.Rejection
import RecordServer.Proofs.Parser.Registry
import RecordServer.Proofs.Site

/-!
# What the outputs of a site deliver

A list is answered either with the records at the selected positions, from the offset on and up to the limit, or with
the status of a failure of the client before anything is read (`Site.list_answered`). This takes index files which have
been built or are up to date in any case, and no index file may be written over the file of the input
(`Site.list_answered_needs_files`).

Each record that an output delivers is accepted for all parameters which are effective (`Site.delivered_accepted`). A
parameter that is displaced by a later one has no effect.
-/

namespace RecordServer

variable {fs fs' : FileSystem} {config : Config} {site : Site} {name : String} {o : Output} {limit : Config.Limit}
  {offsetParameter : String}

namespace Output

variable {request : Request} {describe : External → String} {watch : Watch}

/-- What a request selects is accepted for each effective parameter. -/
theorem accepts_of_selects {p : Position} (h : o.Selects fs request p) {s : Binding × String}
    (hs : o.Effective request s) : ∃ r, o.input.Holds fs p r ∧ o.Accepts s r := by
  have hne : o.supplied request ≠ [] := by
    obtain ⟨before, after, hsupplied, -⟩ := hs
    rw [hsupplied]
    simp
  unfold Selects at h
  rw [if_neg hne] at h
  obtain ⟨items, hitems, r, hr, haccepts⟩ := h
  exact ⟨r, ⟨items, hitems, hr⟩, haccepts s hs⟩

/-- A body lists the records at the positions which a request selects, from the offset on and up to the limit. -/
def Delivers (o : Output) (fs : FileSystem) (limit : Config.Limit) (offsetParameter : String) (request : Request)
    (body : String) : Prop :=
  ∃ count offset m records, Wants limit request count ∧ Skips offsetParameter request offset ∧
    o.Lists fs request m ∧ o.Loads fs ((m.drop offset).take count) records ∧
    records.length = min count (m.length - offset) ∧ body = listText records

/-- A list that is answered with success. -/
theorem delivers_of_succeeds (hdelivery : o.delivery = .list limit offsetParameter) (h : o.Answerable fs request)
    (hsucceeds : (o.dispatch describe fs request watch .willing).Succeeds) :
    o.Delivers fs limit offsetParameter request (o.dispatch describe fs request watch .willing).sink.body := by
  have hleads := leads_handleList hdelivery h
  have hhandle : o.handleList limit offsetParameter request = o.handle request := by
    unfold handle
    rw [hdelivery]
  rw [hhandle] at hleads
  obtain ⟨x, ⟨count, offset, m, records, t, hcount, hoffset, hlists, hloads, hx⟩, hbody⟩ :=
    dispatch_ok hleads rfl hsucceeds
  refine ⟨count, offset, m, records, wants_of_limitOf hcount, skips_of_offsetOf hoffset, hlists, hloads, ?_,
    hbody _ hx.reply⟩
  obtain ⟨s, hrun⟩ := hloads
  rw [length_of_run_mapM hrun, List.length_take, List.length_drop]

/-- A body shows records in the way in which an output delivers them. -/
def Shows (o : Output) (records : List Record) (body : String) : Prop :=
  match o.delivery with
  | .list _ _ => body = listText records
  | .single _ => ∃ r, records = [r] ∧ body = r.json

/-- A success shows records at some of the positions which are selected. -/
theorem shows_of_succeeds (h : o.Answerable fs request)
    (hsucceeds : (o.dispatch describe fs request watch .willing).Succeeds) :
    ∃ m positions records, o.Lists fs request m ∧ positions.Sublist m ∧ o.Loads fs positions records ∧
      o.Shows records (o.dispatch describe fs request watch .willing).sink.body := by
  cases hdelivery : o.delivery with
  | list limit offsetParameter =>
    obtain ⟨count, offset, m, records, -, -, hlists, hloads, -, hbody⟩ := delivers_of_succeeds hdelivery h hsucceeds
    refine ⟨m, (m.drop offset).take count, records, hlists, ?_, hloads, ?_⟩
    · exact (List.take_sublist count _).trans (List.drop_sublist offset m)
    · unfold Shows
      rw [hdelivery]
      exact hbody
  | single route =>
    have hleads := leads_handleSingle hdelivery h
    have hhandle : o.handleSingle route request = o.handle request := by
      unfold handle
      rw [hdelivery]
    rw [hhandle] at hleads
    obtain ⟨x, ⟨m, p, r, t, hlists, hfirst, hloads, hx⟩, hbody⟩ := dispatch_ok hleads rfl hsucceeds
    refine ⟨m, [p], [r], hlists, List.singleton_sublist.2 (List.mem_of_head? hfirst), hloads, ?_⟩
    unfold Shows
    rw [hdelivery]
    exact ⟨r, rfl, hbody _ hx.reply⟩

/-- Nothing is selected if no record is accepted for an effective parameter. -/
theorem not_selects {s : Binding × String} {items : List Loaded} (hs : o.Effective request s)
    (hitems : o.input.records fs = .ok items) (hnone : ∀ a ∈ reached items, ¬o.Accepts s a.2) (p : Position) :
    ¬o.Selects fs request p := by
  intro h
  obtain ⟨r, ⟨found, hfound, hr⟩, haccepts⟩ := accepts_of_selects h hs
  cases hfound.symm.trans hitems
  exact hnone (p, r) hr haccepts

/-- A body is wrong that is not empty although no record is accepted for an effective parameter. -/
theorem not_delivers {s : Binding × String} {items : List Loaded} {body : String} (hs : o.Effective request s)
    (hitems : o.input.records fs = .ok items) (hnone : ∀ a ∈ reached items, ¬o.Accepts s a.2) (hbody : body ≠ "[]") :
    ¬o.Delivers fs limit offsetParameter request body := by
  rintro ⟨count, offset, m, records, -, -, hlists, -, hlength, rfl⟩
  obtain rfl : m = [] :=
    List.eq_nil_iff_forall_not_mem.2 fun p hp => not_selects hs hitems hnone p ((hlists.mem p).1 hp)
  obtain rfl : records = [] := by
    rw [← List.length_eq_zero_iff, hlength]
    simp
  exact hbody rfl

end Output

/-- What can be seen of how a request has ended. -/
def Output.Dispatched.summary (d : Output.Dispatched) : Except Failure Unit × Option Nat × Option Failure × String :=
  (d.outcome, d.sink.status?, d.sink.aborted?, d.sink.body)

theorem Output.Dispatched.succeeds_of_summary {d : Output.Dispatched} {body : String}
    (h : d.summary = (.ok (), some 200, none, body)) : d.Succeeds ∧ d.sink.body = body := by
  simp only [summary, Prod.mk.injEq] at h
  obtain ⟨houtcome, hstatus, haborted, hbody⟩ := h
  exact ⟨⟨fun failure hfailure => by simp [houtcome] at hfailure, hstatus, haborted⟩, hbody⟩

namespace Site

open Output

/-- **A list is answered with exactly the records which are asked for, or refused at once.** -/
theorem list_answered (hsite : ofConfig fs config = (.ok site, fs')) (ho : (name, o) ∈ site.outputs)
    (hdelivery : o.delivery = .list limit offsetParameter) (describe : External → String) (request : Request)
    (watch : Watch) :
    (Path.location o.input.path ∉ config.writes →
      (∀ s ∈ o.supplied request, s.1.index.InFile →
        config.Builds fs o.input s.1.index.name ∨ s.1.index.Current fs' o.input) →
      (o.dispatch describe fs' request watch .willing).Succeeds →
      o.Delivers fs' limit offsetParameter request (o.dispatch describe fs' request watch .willing).sink.body) ∧
    (o.Refused limit offsetParameter request → ∃ failure, failure.blame = .client ∧
      (∀ x, (o.handle request).run x = (.error failure, x)) ∧
      (o.dispatch describe fs' request watch .willing).outcome = .error failure ∧
      (o.dispatch describe fs' request watch .willing).watch = watch ∧
      (o.dispatch describe fs' request watch .willing).sink.status? = some 400 ∧
      (o.dispatch describe fs' request watch .willing).sink.aborted? = none ∧
      (o.dispatch describe fs' request watch .willing).sink.body = failure.body describe) := by
  constructor
  · intro hspared hfiles hsucceeds
    exact delivers_of_succeeds hdelivery (answerable hsite ho hspared hfiles) hsucceeds
  · intro hrefused
    obtain ⟨failure, hrefusal, hrun⟩ := handleList_refused hdelivery hrefused
    have hhandle : o.handle request = o.handleList limit offsetParameter request := by
      unfold handle
      rw [hdelivery]
    rw [← hhandle] at hrun
    exact ⟨failure, hrefusal.1, hrun, dispatch_refusal hrefusal hrun rfl⟩

end Site

/-! ## Two tables -/

/-- Two files with one row each. -/
def FileSystem.twoTables : FileSystem :=
  ⟨[(⟨false, ["u.csv"]⟩, ⟨[112, 10], 0⟩), (⟨false, ["v.csv"]⟩, ⟨[113, 10], 0⟩)], [], 1⟩

/-- A configuration with tables of these files, some indexes, and a list for the second table with a parameter which
filters by one of them. -/
def Config.twoTables (indexes : List (String × Config.Index)) (index : String) : Config where
  sources := [("files", ⟨""⟩)]
  parsers := []
  inputs := ["u", "v"].map fun name =>
    (name, ⟨"files", name ++ ".csv", false, .csv ⟨false, 87, [⟨"cell", "string", none, none⟩]⟩⟩)
  indexes := indexes
  outputs := [("list", ⟨"/list", "v", .list ⟨1, 10, "limit"⟩ "offset", [⟨"cell", "cell", index, "string"⟩], []⟩)]
  services := []

/-- One of these tables. -/
def Input.ofTable (name : String) : Input :=
  ⟨name, name ++ ".csv", false, 1, ⟨Parsers.builtIn⟩, .table false 87 [⟨"cell", ⟨"string", .string none⟩⟩]⟩

/-- The list with the index by which it filters. -/
def Output.ofIndex (i : Index) : Output :=
  ⟨"list", "/list", .ofTable "v", .list ⟨1, 10, "limit"⟩ "offset",
    [⟨"cell", "cell", i, ⟨"string", .string none⟩⟩], []⟩

/-- The site with some indexes, of which one is used. -/
def Site.ofIndexes (indexes : List Index) (used : Index) : Site where
  catalog :=
    { parsers := ⟨Parsers.builtIn⟩
      inputs := [("u", .ofTable "u"), ("v", .ofTable "v")]
      indexes := (Config.defaultIndex, .scan Config.defaultIndex) :: indexes.map fun i => (i.name, i) }
  outputs := [("list", .ofIndex used)]

/-- The index file of a table with one letter. -/
def SuffixFile.ofLetter (letter : String) : SuffixFile :=
  ⟨encode false [SuffixTable.ofKeys "cell" [(letter, 0)]], 0, [⟨"cell", 56, 57, 57, [⟨0, 1, 0⟩]⟩]⟩

/-- An index of a table which has this file. -/
def Index.ofLetter (name table letter : String) : Index :=
  .covering name (.ofTable table) ["cell"] (.substringFile false ["cell"] (.ofLetter letter))

/-- An exact index of the second table. -/
def Index.ofRow (name : String) : Index :=
  .covering name (.ofTable "v") ["cell"] (.exact [("cell", Postings.ofKeys [("q", 0)])])

/-- The files with this index file written, in place of one of them or next to them. -/
def FileSystem.withLetter (name letter : String) : FileSystem where
  files := (⟨false, [name]⟩, ⟨(SuffixFile.ofLetter letter).data, 1⟩) ::
    FileSystem.twoTables.files.filter fun file => file.1.names ≠ [name]
  directories := []
  now := 1

/-- The files with some bytes as an index file next to them. -/
def FileSystem.withBytes (content : List UInt8) : FileSystem :=
  ⟨(⟨false, ["cells"]⟩, ⟨content, 1⟩) :: FileSystem.twoTables.files, [], 1⟩

namespace Site

open Output

theorem ofConfig_built :
    ofConfig .twoTables (.twoTables [("second", .substringFile "v" ["cell"] false "cells")] "second") =
    (.ok (ofIndexes [.ofLetter "second" "v" "q"] (.ofLetter "second" "v" "q")), .withLetter "cells" "q") := by
  unfold ofConfig Catalog.ofConfig Catalog.openFiles
  rw [show (Config.twoTables _ _).parsers = [] from rfl, Parsers.ofDeclarations_alone (by decide)]
  cbv

/-- The index file is built from the second table. -/
theorem builds_second : (Config.twoTables [("second", .substringFile "v" ["cell"] false "cells")] "second").Builds
    .twoTables (.ofTable "v") "second" := by
  have hnone : FileSystem.twoTables.files.lookup (Path.location "cells") = none := by cbv
  have hsource : FileSystem.twoTables.file? "v.csv" = some ⟨[113, 10], 0⟩ := by cbv
  have hrecords : reached ((Input.ofTable "v").recordsOf [113, 10]) = [(0, ⟨[("cell", .string "q")]⟩)] := by cbv
  have hkeys : keysOf false [(0, ⟨[("cell", .string "q")]⟩)] "cell" = [("q", 0)] := by cbv
  refine ⟨[], [], "v", ["cell"], false, "cells", rfl, by simp, fun old hold => ?_, fun source h => ?_⟩
  · cases hnone.symm.trans hold
  · obtain rfl := Option.some.inj (hsource.symm.trans h)
    rw [hrecords]
    refine ⟨by decide, by decide, ?_, ?_⟩
    · rw [List.forall_mem_singleton, hkeys]
      exact List.forall_mem_singleton.2 (by decide)
    · rw [SuffixFile.tablesOf, List.map_singleton, hkeys]
      exact Nat.lt_of_le_of_lt (Nat.le_of_eq (show _ = 77 by cbv)) (by decide)

theorem list_answered_built :
    (ofIndex (.ofLetter "second" "v" "q")).Delivers (.withLetter "cells" "q") ⟨1, 10, "limit"⟩ "offset"
      ⟨"/list", [("cell", "q")]⟩ "[\x7b\"cell\":\"q\"\x7d]" ∧
    ((ofIndex (.ofLetter "second" "v" "q")).dispatch (fun _ => "") (.withLetter "cells" "q")
      ⟨"/list", [("limit", "0")]⟩ .never .willing).sink.status? = some 400 := by
  have h := list_answered ofConfig_built List.mem_cons_self rfl (fun _ => "")
  constructor
  · have hsummary : ((ofIndex (.ofLetter "second" "v" "q")).dispatch (fun _ => "") (.withLetter "cells" "q")
        ⟨"/list", [("cell", "q")]⟩ .never .willing).summary = (.ok (), some 200, none, "[\x7b\"cell\":\"q\"\x7d]") := by
      cbv
    obtain ⟨hsucceeds, hbody⟩ := Dispatched.succeeds_of_summary hsummary
    have hspared : decide (Path.location (ofIndex (.ofLetter "second" "v" "q")).input.path ∉
        (Config.twoTables [("second", .substringFile "v" ["cell"] false "cells")] "second").writes) = true := by
      cbv
    refine hbody ▸ (h _ _).1 (of_decide_eq_true hspared) (fun s hs _ => .inl ?_) hsucceeds
    rw [List.mem_singleton.1 (binding_of_supplied hs)]
    exact builds_second
  · have hrefused : (ofIndex (.ofLetter "second" "v" "q")).Refused ⟨1, 10, "limit"⟩ "offset"
        ⟨"/list", [("limit", "0")]⟩ :=
      .limit rfl fun n hn => by
        obtain rfl : 0 = n := Option.some.inj (Eq.trans (by cbv) hn)
        decide
    obtain ⟨-, -, -, -, -, hstatus, -⟩ := (h ⟨"/list", [("limit", "0")]⟩ .never).2 hrefused
    exact hstatus

theorem ofConfig_shared : ofConfig .twoTables (.twoTables [("first", .substringFile "u" ["cell"] false "cells"),
    ("second", .substringFile "v" ["cell"] false "cells")] "second") =
    (.ok (ofIndexes [.ofLetter "first" "u" "p", .ofLetter "second" "v" "p"] (.ofLetter "second" "v" "p")),
      .withLetter "cells" "p") := by
  unfold ofConfig Catalog.ofConfig Catalog.openFiles
  rw [show (Config.twoTables _ _).parsers = [] from rfl, Parsers.ofDeclarations_alone (by decide)]
  cbv

theorem ofConfig_overwritten : ofConfig .twoTables (.twoTables [("second", .exact "v" ["cell"]),
    ("first", .substringFile "u" ["cell"] false "v.csv")] "second") =
    (.ok (ofIndexes [.ofRow "second", .ofLetter "first" "u" "p"] (.ofRow "second")), .withLetter "v.csv" "p") := by
  unfold ofConfig Catalog.ofConfig Catalog.openFiles
  rw [show (Config.twoTables _ _).parsers = [] from rfl, Parsers.ofDeclarations_alone (by decide)]
  cbv

/-- A list of the site of a configuration is answered with success, but not with the records which are asked for. -/
def Misdelivers (fs : FileSystem) (config : Config) : Prop :=
  ∃ site fs' name o limit offsetParameter request, ofConfig fs config = (.ok site, fs') ∧ (name, o) ∈ site.outputs ∧
    o.delivery = .list limit offsetParameter ∧ (o.dispatch (fun _ => "") fs' request .never .willing).Succeeds ∧
    ¬o.Delivers fs' limit offsetParameter request (o.dispatch (fun _ => "") fs' request .never .willing).sink.body

set_option maxRecDepth 2000 in
/-- **Index files have to be up to date, and must not be written over the file of the input**: an index answers from a
file which has been written for other records, and one in memory does not notice that the records are gone. -/
theorem list_answered_needs_files :
    Misdelivers .twoTables (.twoTables [("first", .substringFile "u" ["cell"] false "cells"),
      ("second", .substringFile "v" ["cell"] false "cells")] "second") ∧
    Misdelivers .twoTables (.twoTables [("second", .exact "v" ["cell"]),
      ("first", .substringFile "u" ["cell"] false "v.csv")] "second") := by
  constructor
  · have hsummary : ((ofIndex (.ofLetter "second" "v" "p")).dispatch (fun _ => "") (.withLetter "cells" "p")
        ⟨"/list", [("cell", "p")]⟩ .never .willing).summary = (.ok (), some 200, none, "[\x7b\"cell\":\"q\"\x7d]") := by
      cbv
    obtain ⟨hsucceeds, hbody⟩ := Dispatched.succeeds_of_summary hsummary
    refine ⟨_, _, _, _, _, _, _, ofConfig_shared, List.mem_cons_self, rfl, hsucceeds, ?_⟩
    rw [hbody]
    have hrecords : (Input.ofTable "v").records (.withLetter "cells" "p") =
        .ok [.ok (0, ⟨[("cell", .string "q")]⟩)] := by
      cbv
    refine not_delivers ⟨[], [], rfl, by simp⟩ hrecords ?_ (by decide)
    rintro a ha ⟨value, hparse, found, hfound, key, hkey, own, hown, -, hcontains⟩
    obtain rfl : a = (0, ⟨[("cell", .string "q")]⟩) := List.mem_singleton.1 ha
    obtain rfl : Value.string "p" = value := Except.ok.inj hparse
    obtain rfl : Value.string "q" = found := Option.some.inj hfound
    obtain rfl : "p" = key := Option.some.inj hkey
    obtain rfl : own = "q" := List.mem_singleton.1 hown
    revert hcontains
    decide
  · have hsummary : ((ofIndex (.ofRow "second")).dispatch (fun _ => "") (.withLetter "v.csv" "p")
        ⟨"/list", [("cell", "q")]⟩ .never .willing).summary =
        (.ok (), some 200, none, "[\x7b\"cell\":\"RODS\"\x7d]") := by
      cbv
    obtain ⟨hsucceeds, hbody⟩ := Dispatched.succeeds_of_summary hsummary
    refine ⟨_, _, _, _, _, _, _, ofConfig_overwritten, List.mem_cons_self, rfl, hsucceeds, ?_⟩
    rw [hbody]
    have hrecords : (Input.ofTable "v").records (.withLetter "v.csv" "p") =
        .ok [.ok (0, ⟨[("cell", .string "RODS")]⟩)] := by
      cbv
    refine not_delivers ⟨[], [], rfl, by simp⟩ hrecords ?_ (by decide)
    rintro a ha ⟨value, hparse, found, hfound, key, hkey, hown⟩
    obtain rfl : a = (0, ⟨[("cell", .string "RODS")]⟩) := List.mem_singleton.1 ha
    obtain rfl : Value.string "q" = value := Except.ok.inj hparse
    obtain rfl : Value.string "RODS" = found := Option.some.inj hfound
    obtain rfl : "q" = key := Option.some.inj hkey
    have heq : "q" = "RODS" := List.mem_singleton.1 hown
    revert heq
    decide

/-! ## Parameters -/

/-- **Each record that is delivered is accepted for all parameters which are effective**, and each position which a
query yields is that of a record which passes all conditions that are kept. -/
theorem delivered_accepted (hsite : ofConfig fs config = (.ok site, fs')) (ho : (name, o) ∈ site.outputs)
    (hspared : Path.location o.input.path ∉ config.writes) (describe : External → String) (request : Request)
    (watch : Watch) (hfiles : ∀ s ∈ o.supplied request, s.1.index.InFile →
      config.Builds fs o.input s.1.index.name ∨ s.1.index.Current fs' o.input)
    (hsucceeds : (o.dispatch describe fs' request watch .willing).Succeeds) :
    (∃ m positions records, o.Lists fs' request m ∧ positions.Sublist m ∧ o.Loads fs' positions records ∧
      o.Shows records (o.dispatch describe fs' request watch .willing).sink.body ∧
      ∀ p ∈ positions, ∀ s, o.Effective request s → ∃ r, o.input.Holds fs' p r ∧ o.Accepts s r) ∧
    ∀ (input : Input) (conditions : List Condition) (guarded : Bool) (feed : Feed), Query.Consistent conditions →
      (∀ c ∈ conditions, c.index.Current fs' input) →
      (Query.ofConditions conditions).execute fs' input guarded = .ok feed → ∀ count w,
      ∀ p ∈ reached (feed.take count w).1, ∀ c, Query.Kept conditions c → ∃ r, input.Holds fs' p r ∧ c.Accepts r := by
  constructor
  · have hanswerable := answerable hsite ho hspared hfiles
    obtain ⟨m, positions, records, hlists, hsub, hloads, hshows⟩ := shows_of_succeeds hanswerable hsucceeds
    refine ⟨m, positions, records, hlists, hsub, hloads, hshows, fun p hp s hs => ?_⟩
    exact accepts_of_selects ((hlists.mem p).1 (hsub.subset hp)) hs
  · intro input conditions guarded feed hc hcurrent h count w p hp c hkept
    exact Query.accepts_of_take hc hcurrent h hp hkept

end Site

/-- A configuration with an array of records, an exact index of their tags, and a list with two parameters for them. -/
def Config.tagged : Config where
  sources := [("files", ⟨""⟩)]
  parsers := []
  inputs := [("tags", ⟨"files", "tags.json", false, .json⟩)]
  indexes := [("exact", .exact "tags" ["tags"])]
  outputs := [("list", ⟨"/tags", "tags", .list ⟨1, 10, "limit"⟩ "offset",
    [⟨"tag", "tags", "exact", "string"⟩, ⟨"also", "tags", "exact", "string"⟩], []⟩)]
  services := []

/-- The list of this configuration. -/
def Output.tagged : Output :=
  let input : Input := ⟨"tags", "tags.json", false, 2, ⟨Parsers.builtIn⟩, .elements #[(1, 21), (22, 34)]⟩
  let exact : Index := .covering "exact" input ["tags"]
    (.exact [("tags", Postings.ofKeys [("2", 0), ("Äb", 0), ("2", 0), ("2", 1)])])
  ⟨"list", "/tags", input, .list ⟨1, 10, "limit"⟩ "offset",
    ["tag", "also"].map fun name => ⟨name, "tags", exact, ⟨"string", .string none⟩⟩, []⟩

namespace Site

open Output

/-- The site of this configuration. -/
def tagged : Site where
  catalog :=
    { parsers := ⟨Parsers.builtIn⟩
      inputs := [("tags", Output.tagged.input)]
      indexes := (Config.defaultIndex, .scan Config.defaultIndex) ::
        (Output.tagged.bindings.map fun b => (b.index.name, b.index)).take 1 }
  outputs := [("list", Output.tagged)]

theorem ofConfig_tagged : ofConfig Index.tagged Config.tagged = (.ok tagged, Index.tagged) := by
  unfold ofConfig Catalog.ofConfig Catalog.openFiles
  rw [show Config.tagged.parsers = [] from rfl, Parsers.ofDeclarations_alone (by decide)]
  cbv

/-- Its index is in memory. -/
theorem inMemory_tagged (request : Request) : ∀ s ∈ Output.tagged.supplied request, ¬s.1.index.InFile := by
  rintro s hs ⟨c, hc, hfile⟩
  have hb := binding_of_supplied hs
  simp only [Output.tagged, List.map_cons, List.map_nil, List.mem_cons, List.not_mem_nil, or_false] at hb
  rcases hb with hb | hb <;> rw [hb] at hc <;> cases hc <;> exact absurd trivial hfile

theorem delivered_accepted_tagged : ∃ m positions records,
    Output.tagged.Lists Index.tagged ⟨"/tags", [("tag", "Äb")]⟩ m ∧ positions.Sublist m ∧
    Output.tagged.Loads Index.tagged positions records ∧
    Output.tagged.Shows records "[\x7b\"tags\":[2,\"Äb\",2]\x7d]" ∧
    ∀ p ∈ positions, ∀ s, Output.tagged.Effective ⟨"/tags", [("tag", "Äb")]⟩ s →
      ∃ r, Output.tagged.input.Holds Index.tagged p r ∧ Output.tagged.Accepts s r := by
  have hsummary : (Output.tagged.dispatch (fun _ => "") Index.tagged ⟨"/tags", [("tag", "Äb")]⟩ .never
      .willing).summary = (.ok (), some 200, none, "[\x7b\"tags\":[2,\"Äb\",2]\x7d]") := by
    cbv
  obtain ⟨hsucceeds, hbody⟩ := Dispatched.succeeds_of_summary hsummary
  exact hbody ▸ (delivered_accepted ofConfig_tagged List.mem_cons_self List.not_mem_nil _ _ _
    (fun s hs hfile => absurd hfile (inMemory_tagged _ s hs)) hsucceeds).1

/-- The parameter `tag`, which no record matches, is displaced by `also`. -/
example : (Output.tagged.dispatch (fun _ => "") Index.tagged ⟨"/tags", [("tag", "none"), ("also", "2")]⟩ .never
    .willing).summary = (.ok (), some 200, none, "[\x7b\"tags\":[2,\"Äb\",2]\x7d]") := by
  cbv

end Site

end RecordServer
