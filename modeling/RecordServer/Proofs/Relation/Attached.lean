import RecordServer.Proofs.Contract
import RecordServer.Proofs.Relation.Compiled

/-!
# What a relation attaches

A relation that has been compiled attaches to each record what the plain algorithm attaches, and it resolves its own
relations for those children only which are kept (`Relation.resolve_plain`). This takes children which can all be read,
index files which have been built or are up to date in any case, and no index file may be written over the file of an
input (`Relation.resolve_plain_needs_files`).
-/

namespace RecordServer

variable {fs fs' : FileSystem} {config : Config} {c : Catalog}

/-- All records of an input with their positions; there are none if some cannot be read. -/
def Input.stored (fs : FileSystem) (i : Input) : List (Position × Record) :=
  (Index.allRecords fs i).toOption.getD []

namespace Relation

open Session

/-- What the children of a relation are promised by the files of a configuration before and after it has been opened:
their file is not written over, it does not matter in which order they are loaded, they can all be read, and index files
have been built or are up to date in any case. -/
structure Granted (fs fs' : FileSystem) (config : Config) (input : Input) (rules : List Rule) : Prop where
  spared : Path.location input.path ∉ config.writes
  uniform : ∀ f, fs.file? input.path = some f → f.content.length ≤ Input.maxOffset ∧ input.Uniform f.content
  readable : ∃ records, Index.allRecords fs' input = .ok records
  files : ∀ rule ∈ rules, rule.index.InFile →
    config.Builds fs input rule.index.name ∨ rule.index.Current fs' input

/-- What has been compiled and is granted can be found. -/
theorem findable_of_granted (h : Catalog.ofConfig fs config = (.ok c, fs')) {input : Input} {rules : List Rule}
    (hcompiled : Compiled c input rules) (hgranted : Granted fs fs' config input rules) :
    Findable fs' c.inputs (input.stored fs') input rules := by
  obtain ⟨hchanges, hinputs, -⟩ := Catalog.ofConfig_sound h
  obtain ⟨inputName, hlookup⟩ := hcompiled.known
  obtain ⟨records, hrecords⟩ := hgranted.readable
  have hstored : input.stored fs' = records := by
    unfold Input.stored
    rw [hrecords]
    rfl
  have hfound : ∀ rule ∈ rules, c.indexes.lookup rule.index.name = some rule.index ∧ rule.index.Current fs' input := by
    intro rule hrule
    obtain ⟨indexName, hindex, hhandles, -⟩ := hcompiled.indexed rule hrule
    exact Site.current_of_catalog h hlookup hindex hhandles hgranted.spared (hgranted.files rule hrule)
  refine ⟨?_, ?_, fun rule hrule => (hfound rule hrule).2, fun rule hrule => ?_,
    fun rule hrule other hother hname => ?_, hcompiled.distinct⟩
  · rw [hstored]
    obtain ⟨parsers, place, path, created, hcreate⟩ := Catalog.inputs_created h _ (mem_of_lookup hlookup)
    refine Input.loads_of_create hcreate (fun f hf => ?_) hrecords
    exact ⟨hchanges.file hgranted.spared hf, hgranted.uniform f hf⟩
  · rw [(hinputs _ (mem_of_lookup hlookup)).1]
    exact hlookup
  · obtain ⟨-, -, hhandled⟩ := hcompiled.indexed rule hrule
    exact hhandled
  · have hthere := (hfound rule hrule).1
    rw [hname, (hfound other hother).1] at hthere
    exact (Option.some.inj hthere).symm

variable {parentInput : Input} {place : String} {relationship : Config.Relationship} {relation : Relation}

/-- **A relation attaches what the plain algorithm attaches**, and it resolves its own relations for the children only
which are kept. -/
theorem resolve_plain (h : Catalog.ofConfig fs config = (.ok c, fs'))
    (hcompile : compile c parentInput place relationship = .ok relation) (hseparate : relationship.Separate)
    (hgranted : relation.Each fun input rules _ => Granted fs fs' config input rules) (parent : Record) (s : Session)
    (hs : s.Regular fs' c.inputs) :
    ((resolve relation parent).run s).1.toOption =
      plain (fun input => (input.stored fs').map Prod.snd) relation parent ∧
    ((resolve relation parent).run s).2.Regular fs' c.inputs ∧
    ∀ name input isArray limit sort rules relations, relation = mk name input isArray limit sort rules relations →
      ∀ found, kept isArray limit sort rules ((input.stored fs').map Prod.snd) parent = some found →
        ∃ t, t.Regular fs' c.inputs ∧ (children name input isArray limit sort rules parent).run s = (.ok found, t) ∧
          (resolve relation parent).run s =
            (do return valueOf isArray (← found.mapM (resolveAll relations))).run t := by
  have hfindable := (each_compile hseparate hcompile).imp
    (fun _ _ _ hcompiled hgranted => findable_of_granted h hcompiled hgranted) hgranted
  obtain ⟨hregular, hplain⟩ := gives_resolve relation parent hfindable s hs
  refine ⟨hplain, hregular, ?_⟩
  rintro name input isArray limit sort rules relations rfl found hfound
  unfold Each at hfindable
  obtain ⟨ht, hchildren⟩ := @gives_children _ _ _ _ parent rules isArray limit sort name hfindable.1 s hs
  rw [hfound] at hchildren
  rcases hrun : (children name input isArray limit sort rules parent).run s with ⟨e | same, t⟩
  · rw [hrun] at hchildren
    cases hchildren
  · rw [hrun] at ht hchildren
    obtain rfl : same = found := Option.some.inj hchildren
    refine ⟨t, ht, rfl, ?_⟩
    unfold resolve
    rw [run_bind_ok hrun]

end Relation

/-! ## Two tables -/

/-- A relationship of the second table to its rows with the same cell, and for each of these to some row of the
first. -/
def Config.Relationship.ofTwoTables : Config.Relationship :=
  .mk "same" "v" true 2 [⟨"cell", false⟩] [⟨"cell", "cell", "second"⟩] [.mk "any" "u" false 0 [] [] []]

namespace Relation

/-- The relation for it, with an index of the second table. -/
def ofTwoTables (i : Index) : Relation :=
  mk "same" (.ofTable "v") true 2 [⟨"cell", false⟩] [⟨"cell", "cell", i⟩] [mk "any" (.ofTable "u") false 0 [] [] []]

theorem separate_ofTwoTables : Config.Relationship.ofTwoTables.Separate := by
  simp [Config.Relationship.ofTwoTables, Config.Relationship.Separate, Config.separateAll]

/-- A table with one row can be read, and it does not matter in which order. -/
theorem granted_ofTable (content : List UInt8) (cell : String) {name : String} {config : Config} {rules : List Rule}
    (hspared : decide (Path.location (name ++ ".csv") ∉ config.writes) = true)
    (hfile : FileSystem.twoTables.file? (name ++ ".csv") = some ⟨content, 0⟩) (hlength : content.length = 2)
    (hrows : (Input.rowsOf false 87 content).map Prod.fst = [0])
    (hrecords : Index.allRecords fs' (.ofTable name) = .ok [(0, ⟨[("cell", .string cell)]⟩)])
    (hfiles : ∀ rule ∈ rules, rule.index.InFile →
      config.Builds .twoTables (.ofTable name) rule.index.name ∨ rule.index.Current fs' (.ofTable name)) :
    Granted .twoTables fs' config (.ofTable name) rules where
  spared := of_decide_eq_true hspared
  uniform f hf := by
    obtain rfl := Option.some.inj (hfile.symm.trans hf)
    refine ⟨by rw [hlength]; decide, fun row hrow hmarked => ?_⟩
    have hfirst := List.mem_map_of_mem (f := Prod.fst) hrow
    rw [hrows, List.mem_singleton] at hfirst
    exact absurd hmarked.1 (by rw [hfirst]; decide)
  readable := ⟨_, hrecords⟩
  files := hfiles

/-- What the relation is promised if its index file is built. -/
theorem granted_built : (ofTwoTables (.ofLetter "second" "v" "q")).Each fun input rules _ =>
    Granted .twoTables (.withLetter "cells" "q")
      (.twoTables [("second", .substringFile "v" ["cell"] false "cells")] "second") input rules := by
  unfold ofTwoTables Each EachOf Each
  refine ⟨granted_ofTable [113, 10] "q" (by cbv) (by cbv) rfl (by cbv) (by cbv) ?_,
    ⟨granted_ofTable [112, 10] "p" (by cbv) (by cbv) rfl (by cbv) (by cbv) nofun, trivial⟩,
    trivial⟩
  rw [List.forall_mem_singleton]
  exact fun _ => .inl Site.builds_second

theorem resolve_plain_built : Config.Relationship.ofTwoTables.Separate ∧
    ((ofTwoTables (.ofLetter "second" "v" "q")).Each fun input rules _ =>
      Granted .twoTables (.withLetter "cells" "q")
        (.twoTables [("second", .substringFile "v" ["cell"] false "cells")] "second") input rules) ∧
    plain (fun input => (input.stored (.withLetter "cells" "q")).map Prod.snd)
      (ofTwoTables (.ofLetter "second" "v" "q")) ⟨[("cell", .string "q")]⟩ =
      some (.list [.map [("cell", .string "q"), ("any", .map [("cell", .string "p")])]]) := by
  have hcompile : compile (Site.ofIndexes [.ofLetter "second" "v" "q"] (.ofLetter "second" "v" "q")).catalog
      (.ofTable "v") "outputs.list.relationships" .ofTwoTables = .ok (ofTwoTables (.ofLetter "second" "v" "q")) := by
    cbv
  have hrun : ((resolve (ofTwoTables (.ofLetter "second" "v" "q")) ⟨[("cell", .string "q")]⟩).run
      (.new (.withLetter "cells" "q") .never)).1 =
      .ok (.list [.map [("cell", .string "q"), ("any", .map [("cell", .string "p")])]]) := by
    cbv
  refine ⟨separate_ofTwoTables, granted_built, ?_⟩
  have hplain := (resolve_plain (Site.bound_of_mem Site.ofConfig_built List.mem_cons_self).1 hcompile
    separate_ofTwoTables granted_built ⟨[("cell", .string "q")]⟩ _ (Session.regular_new Watch.undisturbed_never)).1
  rw [hrun] at hplain
  exact hplain.symm

/-- **Index files have to be up to date**: of two index files of one path, only the first is built, and what is looked
up in it for the second table are the rows of the first. -/
theorem resolve_plain_needs_files : ∃ c fs' i, Catalog.ofConfig .twoTables (.twoTables
      [("first", .substringFile "u" ["cell"] false "cells"), ("second", .substringFile "v" ["cell"] false "cells")]
      "second") = (.ok c, fs') ∧
    compile c (.ofTable "v") "outputs.list.relationships" .ofTwoTables = .ok (ofTwoTables i) ∧
    (Index.allRecords fs' (.ofTable "v")).toOption = some [(0, ⟨[("cell", .string "q")]⟩)] ∧
    ((resolve (ofTwoTables i) ⟨[("cell", .string "q")]⟩).run (.new fs' .never)).1 = .ok (.list []) ∧
    plain (fun input => (input.stored fs').map Prod.snd) (ofTwoTables i) ⟨[("cell", .string "q")]⟩ =
      some (.list [.map [("cell", .string "q"), ("any", .map [("cell", .string "p")])]]) := by
  have hcompile : compile (Site.ofIndexes [.ofLetter "first" "u" "p", .ofLetter "second" "v" "p"]
      (.ofLetter "second" "v" "p")).catalog (.ofTable "v") "outputs.list.relationships" .ofTwoTables =
      .ok (ofTwoTables (.ofLetter "second" "v" "p")) := by
    cbv
  refine ⟨_, _, _, (Site.bound_of_mem Site.ofConfig_shared List.mem_cons_self).1, hcompile, by cbv, by cbv, ?_⟩
  have hstored : ((Input.ofTable "v").stored (.withLetter "cells" "p")).map Prod.snd = [⟨[("cell", .string "q")]⟩] := by
    cbv
  have hother : ((Input.ofTable "u").stored (.withLetter "cells" "p")).map Prod.snd = [⟨[("cell", .string "p")]⟩] := by
    cbv
  have hsatisfied : (⟨"cell", "cell", .ofLetter "second" "v" "p"⟩ : Rule).Satisfied ⟨[("cell", .string "q")]⟩
      ⟨[("cell", .string "q")]⟩ :=
    ⟨.string "q", rfl, .string "q", rfl, "q", rfl, "q", List.mem_cons_self, by decide, List.infix_rfl⟩
  have hkept : kept true 2 [⟨"cell", false⟩] [⟨"cell", "cell", .ofLetter "second" "v" "p"⟩]
      [⟨[("cell", .string "q")]⟩] ⟨[("cell", .string "q")]⟩ = some [⟨[("cell", .string "q")]⟩] := by
    unfold kept stableOrder
    simp [hsatisfied, Record.property?, Fields.get?]
  have hany : kept false 0 [] [] [⟨[("cell", .string "p")]⟩] ⟨[("cell", .string "q")]⟩ =
      some [⟨[("cell", .string "p")]⟩] := by
    simp [kept, stableOrder]
  simp [plain, plainAll, ofTwoTables, hstored, hother, hkept, hany, Record.set, Fields.set, Relation.name,
    Record.toValue]

end Relation

end RecordServer
