import RecordServer.Proofs.Index.Build
import RecordServer.Proofs.Index.Yield

/-!
# Index files and substring indexes

An index file that has just been built and a substring index of the same properties yield the same positions
(`substringFile_yields_like_substring`): the tables of both describe the records of the input, so that both yield
exactly the positions of the records which contain the texts of all filters. What has been built has been read back, so
its number of tables and the lengths of its properties fit into the file (`Index.fits_of_build`). Conversely an index
file with room for its records is built if it can be written (`Index.openFile_of_writeFile`).
-/

namespace RecordServer

namespace Index

variable {fs fs' : FileSystem} {name path : String} {input : Input} {properties : List String} {ignoreCase : Bool}
  {records : List (Position × Record)}

/-- **An index file with room for its records is built if it can be written.** -/
theorem openFile_of_writeFile (hdirectory : fs.isDirectory path = false)
    (hnone : current? fs input properties ignoreCase path = .ok none) (hrecords : allRecords fs input = .ok records)
    (hroom : SuffixFile.RoomFor ignoreCase properties records)
    (hwritten : writeFile fs path (SuffixFile.encode ignoreCase (SuffixFile.tablesOf ignoreCase properties records)) =
      (.ok (), fs')) :
    openFile fs name input properties ignoreCase path =
      (.ok (.ofTables ignoreCase (SuffixFile.tablesOf ignoreCase properties records)), fs') := by
  obtain ⟨f, hf, hcontent⟩ := file?_writeFile hwritten
  have hread : (fs'.file? path).bind (fun f => SuffixFile.decode? f.content) =
      some (.ofTables ignoreCase (SuffixFile.tablesOf ignoreCase properties records)) := by
    rw [hf, Option.bind_some, hcontent, SuffixFile.decode?_encode hroom.fits]
  have hsuits : (SuffixFile.ofTables ignoreCase (SuffixFile.tablesOf ignoreCase properties records)).suits properties
      ignoreCase = true :=
    SuffixFile.suits_ofTables.2 ⟨rfl, SuffixFile.map_property_tablesOf⟩
  have hbuilt : build fs name input properties ignoreCase path =
      (.ok (.ofTables ignoreCase (SuffixFile.tablesOf ignoreCase properties records)), fs') := by
    unfold build
    rw [hrecords]
    simp only
    rw [← SuffixFile.tablesOf, hwritten]
    simp only [hread, Option.filter, hsuits, if_true]
  unfold openFile
  rw [hdirectory, hnone]
  exact hbuilt

end Index

/-- **An index file that has just been built yields what a substring index yields**: the same positions in the same
ascending order, for any filters of indexed properties of an input all of whose records can be read, if no key has more
bytes than a number of 32 bits can count. Positions and the size of a file are numbers of 64 bits. -/
theorem substringFile_yields_like_substring {fs fs' : FileSystem} {input : Input} {records : List (Position × Record)}
    {name path : String} {properties : List String} {ignoreCase : Bool} {fileTables : Tables}
    (hrecords : Index.allRecords fs input = .ok records)
    (hkeys : ∀ property ∈ properties, ∀ key ∈ keysOf ignoreCase records property, key.1.utf8ByteSize < 2 ^ 32)
    (hpositions : ∀ r ∈ records, r.1 < 2 ^ 64)
    (hsize : (SuffixFile.encode ignoreCase (SuffixFile.tablesOf ignoreCase properties records)).length < 2 ^ 64)
    (hnone : Index.current? fs input properties ignoreCase path = .ok none)
    (hopened : Index.tablesFor fs name input (.substringFile input.name properties ignoreCase path) =
      (.ok fileTables, fs'))
    (otherName : String) {filters : Filters} (hne : filters ≠ [])
    (hsub : ∀ property ∈ filters.names, property ∈ properties) :
    ∃ tables positions,
      Index.tablesFor fs otherName input (.substring input.name properties ignoreCase) = (.ok tables, fs) ∧
      (Index.covering otherName input properties tables).yield fs input filters = .ok (positions.map .ok) ∧
      (Index.covering name input properties fileTables).yield fs' input filters = .ok (positions.map .ok) ∧
      Ascending positions := by
  have hasc : Ascending (records.map Prod.fst) := by
    simpa [reached_of_all] using Input.records_ascending (Index.records_of_allRecords hrecords)
  -- the file that has been opened, and its tables
  obtain ⟨file, hfile, rfl⟩ : ∃ file, Index.openFile fs name input properties ignoreCase path = (.ok file, fs') ∧
      fileTables = .substringFile ignoreCase properties file := by
    obtain ⟨hmap, hnext⟩ := Prod.mk.inj hopened
    obtain ⟨file, hfile, htables⟩ := ok_of_map hmap
    exact ⟨file, Prod.ext hfile hnext, htables.symm⟩
  have hfit : ∀ property ∈ properties, SuffixTable.KeysFit (keysOf ignoreCase records property) := by
    intro property hproperty key hkey
    obtain ⟨r, hr, -⟩ := mem_keysOf.1 hkey
    exact ⟨hkeys property hproperty key hkey, hpositions _ hr⟩
  have hdescribes : (Tables.substringFile ignoreCase properties file).Describes properties records := by
    obtain ⟨records', hrecords', hdescribes⟩ := Index.describes_of_openFile hfile hnone
    obtain rfl : records = records' := Except.ok.inj (hrecords.symm.trans hrecords')
    refine hdescribes ?_
    obtain ⟨hcurrent, -⟩ | ⟨-, hbuilt⟩ := Index.openFile_cases hfile
    · cases hnone.symm.trans hcurrent
    · exact SuffixFile.roomFor_iff.2 ⟨(Index.fits_of_build hbuilt hrecords hsize).1, hfit⟩
  obtain ⟨positions, hpositions, hpasc, hmem⟩ :=
    @Index.yield_of_describes fs (.covering otherName input properties _) input filters _ records rfl rfl
      Tables.describes_substring hasc hne hsub
  obtain ⟨others, hothers, hoasc, hmem'⟩ :=
    @Index.yield_of_describes fs' (.covering name input properties _) input filters _ records rfl rfl hdescribes hasc
      hne hsub
  -- both tables make the same test
  obtain rfl : positions = others := hpasc.eq_of_mem_iff hoasc fun p => (hmem p).trans (hmem' p).symm
  exact ⟨_, positions, by rw [Index.tablesFor, hrecords]; rfl, hpositions, hothers, hpasc⟩

namespace Index

/-- The records of the tagged objects. -/
def taggedRecords : List (Position × Record) :=
  [(0, ⟨[("tags", .list [.integer 2, .string "Äb", .integer 2])]⟩), (1, ⟨[("tags", .string "2")]⟩)]

/-- The index file of the tagged objects, without regard to case. -/
def taggedFile : SuffixFile := .ofTables true (SuffixFile.tablesOf true ["tags"] taggedRecords)

/-- The tagged objects with this file next to them. -/
def taggedWithFile : FileSystem :=
  ⟨(⟨false, ["tags.idx"]⟩, ⟨taggedFile.data, 0⟩) :: tagged.files, [], 0⟩

/-- The numbers of the tagged objects fit into an index file. -/
theorem roomFor_tagged : SuffixFile.RoomFor true ["tags"] taggedRecords where
  count := by decide
  names := by decide
  keys := by
    rw [List.forall_mem_singleton,
      show keysOf true taggedRecords "tags" = [("2", 0), ("äb", 0), ("2", 0), ("2", 1)] by cbv]
    simp [SuffixTable.KeysFit]
    decide
  size := Nat.lt_of_le_of_lt (Nat.le_of_eq (show _ = 162 by cbv)) (by decide)

/-- The index file of the tagged objects is built next to them. -/
theorem openFile_tagged : openFile tagged "file" taggedInput ["tags"] true "tags.idx" =
    (.ok taggedFile, taggedWithFile) :=
  openFile_of_writeFile (by cbv) (by cbv) allRecords_tagged roomFor_tagged (by cbv)

end Index

/-- The text "ÄB" is within a tag if case is ignored, by both indexes. -/
theorem substringFile_yields_like_substring_tagged : ∃ tables positions,
    Index.tablesFor Index.tagged "substring" Index.taggedInput (.substring "tags" ["tags"] true) =
      (.ok tables, Index.tagged) ∧
    (Index.covering "substring" Index.taggedInput ["tags"] tables).yield Index.tagged Index.taggedInput
      [("tags", .string "ÄB")] = .ok (positions.map .ok) ∧
    (Index.covering "file" Index.taggedInput ["tags"] (.substringFile true ["tags"] Index.taggedFile)).yield
      Index.taggedWithFile Index.taggedInput [("tags", .string "ÄB")] = .ok (positions.map .ok) ∧
    Ascending positions :=
  @substringFile_yields_like_substring _ _ _ _ _ "tags.idx" _ _ _ Index.allRecords_tagged
    (fun property hproperty key hkey => (Index.roomFor_tagged.keys property hproperty key hkey).1) (by decide)
    Index.roomFor_tagged.size (by cbv) (by rw [Index.tablesFor, Index.openFile_tagged]; rfl) "substring" _ (by simp)
    (by simp [Fields.names])

end RecordServer
