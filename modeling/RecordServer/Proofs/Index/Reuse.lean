import Mathlib.Logic.Relation
import RecordServer.Proofs.Contract
import RecordServer.Proofs.Index.Agreement

/-!
# Index files which are taken over

An index file that has been left by an earlier start is taken over if it is not older than the input and suits the
properties and the flag. Its records are not looked at, and nothing tells for which input it has been written. So what
it answers depends on what has happened before, as far as it concerns the path of the index file and the file of the
input (`Index.Event`): other inputs may have used the path, but not for the same properties and flag as long as their
records are others; and whenever the file of the input has changed, it is later than the index file (`Index.Dated`).

Each event keeps that the index file cannot be taken over unless it is the one for the records of the input
(`Index.Trusted.event`). So after any history an index that is opened answers like one which is built afresh
(`Index.openFile_like_build`), and neither condition can be left out (`Index.openFile_unlike_build`). Nor can it be left
out that the properties of an index which cannot be opened fit into a file: four bytes do not count more of them than
`2 ^ 32`, so that what has been written can be a file for the first ones (`Index.openFile_overlong`).
-/

namespace RecordServer

namespace Index

variable {fs fs' : FileSystem} {name path : String} {input : Input} {properties : List String} {ignoreCase : Bool}
  {file : SuffixFile} {present : List UInt8}

/-! ## Histories -/

/-- From one moment to another the file of an input has kept its content and has not been set back in time, or it is
later than the index file. -/
def Dated (input : Input) (path : String) (fs fs' : FileSystem) : Prop :=
  ∀ source', fs'.file? input.path = some source' →
    (∃ source, fs.file? input.path = some source ∧ source.content = source'.content ∧
      source.modified ≤ source'.modified) ∨
    ∀ old, fs'.files.lookup (Path.location path) = some old → old.modified < source'.modified

/-- What may happen to the index file at a path before an index of an input is opened, for some properties and a flag.
The file of the input then has the content `present`. -/
inductive Event (input : Input) (properties : List String) (ignoreCase : Bool) (path : String) (present : List UInt8)
    (fs fs' : FileSystem) : Prop
  /-- Some index is opened at the path, whether this succeeds or not. If it is for the same properties and flag and the
  file of the input has its present content, then it is for the same records. If it fails, it is not because its
  properties do not fit into a file. -/
  | opened {name way : String} {other : Input} {others : List String} {flag : Bool}
      {result : Except Fault SuffixFile} (hopened : openFile fs name other others flag way = (result, fs'))
      (hplace : Path.location way = Path.location path)
      (hsame : others = properties → flag = ignoreCase → ∀ source, fs.file? input.path = some source →
        source.content = present → allRecords fs other = allRecords fs input)
      (hfits : ∀ fault, result = .error fault →
        others.length < 2 ^ 32 ∧ ∀ property ∈ others, property.utf8ByteSize < 2 ^ 32)
      (hdated : Dated input path fs fs')
  /-- Something else happens. The index file is left as it is or removed, or what is there instead is no index file for
  these properties and this flag. -/
  | changed
      (hfile : ∀ old, fs'.files.lookup (Path.location path) = some old →
        fs.files.lookup (Path.location path) = some old ∨
          ∀ f, SuffixFile.decode? old.content = some f → f.suits properties ignoreCase = false)
      (hdated : Dated input path fs fs')

/-- If the file of an input has its present content, the index file at a path is older, or it does not suit the
properties and the flag, or it is the one for the records of the input. -/
def Trusted (input : Input) (properties : List String) (ignoreCase : Bool) (path : String) (present : List UInt8)
    (fs : FileSystem) : Prop :=
  ∀ old, fs.files.lookup (Path.location path) = some old → ∀ source, fs.file? input.path = some source →
    source.content = present →
    old.modified < source.modified ∨
      (∀ f, SuffixFile.decode? old.content = some f → f.suits properties ignoreCase = false) ∨
      ∃ records, allRecords fs input = .ok records ∧
        old.content = SuffixFile.encode ignoreCase (SuffixFile.tablesOf ignoreCase properties records)

/-- The records of an input depend on the content of its file only. -/
theorem allRecords_congr {source source' : File} (h : fs.file? input.path = some source)
    (h' : fs'.file? input.path = some source') (hcontent : source.content = source'.content) :
    allRecords fs input = allRecords fs' input := by
  unfold allRecords
  rw [Input.records_of_file h, Input.records_of_file h', hcontent]

theorem Obsolete.trusted (h : Obsolete fs input properties ignoreCase path) :
    Trusted input properties ignoreCase path present fs := by
  intro old hold source hsource _
  rcases h old hold source hsource with holder | hnone
  · exact .inl holder
  · exact .inr (.inl hnone)

/-- A file that stays as it is can be trusted as before. -/
theorem Trusted.unchanged (h : Trusted input properties ignoreCase path present fs)
    (hdated : Dated input path fs fs') {old source' : File} (hold : fs.files.lookup (Path.location path) = some old)
    (hold' : fs'.files.lookup (Path.location path) = some old) (hsource' : fs'.file? input.path = some source')
    (hpresent : source'.content = present) :
    old.modified < source'.modified ∨
      (∀ f, SuffixFile.decode? old.content = some f → f.suits properties ignoreCase = false) ∨
      ∃ records, allRecords fs' input = .ok records ∧
        old.content = SuffixFile.encode ignoreCase (SuffixFile.tablesOf ignoreCase properties records) := by
  rcases hdated source' hsource' with ⟨source, hsource, hcontent, htime⟩ | hlater
  · rcases h old hold source hsource (hcontent.trans hpresent) with holder | hnone | ⟨records, hrecords, hencoded⟩
    · exact .inl (Nat.lt_of_lt_of_le holder htime)
    · exact .inr (.inl hnone)
    · exact .inr (.inr ⟨records, allRecords_congr hsource hsource' hcontent ▸ hrecords, hencoded⟩)
  · exact .inl (hlater old hold')

/-- A file that has just been built can be trusted: it is for the records of the input, or for other properties or
another flag, or the file of the input is later. -/
theorem trusted_of_build {way : String} {other : Input} {others : List String} {flag : Bool}
    (hbuilt : build fs name other others flag way = (.ok file, fs')) (hplace : Path.location way = Path.location path)
    (hsame : others = properties → flag = ignoreCase → ∀ source, fs.file? input.path = some source →
      source.content = present → allRecords fs other = allRecords fs input)
    (hdated : Dated input path fs fs') : Trusted input properties ignoreCase path present fs' := by
  intro old hold source' hsource' hpresent
  obtain ⟨records, hrecords, hread, hsuits, f, hf, hcontent⟩ := ok_of_build hbuilt
  obtain rfl : f = old := by
    have hthere := FileSystem.lookup_of_file? hf
    rw [hplace, hold] at hthere
    exact (Option.some.inj hthere).symm
  rcases hdated source' hsource' with ⟨source, hsource, hkept, -⟩ | hlater
  · by_cases hfor : others = properties ∧ flag = ignoreCase
    · obtain ⟨rfl, rfl⟩ := hfor
      have hinput := hsame rfl rfl source hsource (hkept.trans hpresent)
      refine .inr (.inr ⟨records, ?_, hcontent⟩)
      rw [← allRecords_congr hsource hsource' hkept, ← hinput, hrecords]
    · refine .inr (.inl fun g hg => Bool.eq_false_iff.2 fun hg' => hfor ?_)
      obtain rfl : file = g := Option.some.inj ((hread.symm.trans (congrArg _ hcontent.symm)).trans hg)
      obtain ⟨hflags, hproperties⟩ := suits_iff.1 hsuits
      obtain ⟨hflags', hproperties'⟩ := suits_iff.1 hg'
      exact ⟨hproperties.symm.trans hproperties', SuffixFile.flagsFor_inj.1 (hflags.symm.trans hflags')⟩
  · exact .inl (hlater f hold)

/-- **Each event keeps that the index file can be trusted.** -/
theorem Trusted.event (h : Trusted input properties ignoreCase path present fs)
    (hevent : Event input properties ignoreCase path present fs fs') :
    Trusted input properties ignoreCase path present fs' := by
  intro old hold source' hsource' hpresent
  cases hevent with
  | changed hfile hdated =>
    rcases hfile old hold with hkept | hnone
    · exact h.unchanged hdated hkept hold hsource' hpresent
    · exact .inr (.inl hnone)
  | @opened name way other others flag result hopened hplace hsame hfits hdated =>
    cases result with
    | error fault =>
      obtain ⟨hcount, hnames⟩ := hfits fault rfl
      rcases lookup_of_openFile_error hopened hcount hnames (hplace ▸ hold) with hkept | hnone
      · exact h.unchanged hdated (hplace ▸ hkept) hold hsource' hpresent
      · exact .inr (.inl fun f hf => by cases hnone.symm.trans hf)
    | ok file =>
      obtain ⟨-, rfl⟩ | ⟨-, hbuilt⟩ := openFile_cases hopened
      · exact h.unchanged hdated hold hold hsource' hpresent
      · exact trusted_of_build hbuilt hplace hsame hdated old hold source' hsource' hpresent

/-- After any history the index file can be trusted, if there is none to begin with that could be taken over. -/
theorem Trusted.history {start : FileSystem} (hstart : Trusted input properties ignoreCase path present start)
    (hhistory : Relation.ReflTransGen (Event input properties ignoreCase path present) start fs) :
    Trusted input properties ignoreCase path present fs := by
  induction hhistory with
  | refl => exact hstart
  | tail _ hevent ih => exact ih.event hevent

/-! ## Opening after a history -/

/-- **An index file that is taken over answers like a fresh one.** After any history, an index that is opened has the
file which is written for the records of its input, whether it has been built or not, and an index which is built afresh
gives the same answers to all queries. -/
theorem openFile_like_build {start : FileSystem} {source : File} (hsource : fs.file? input.path = some source)
    (hstart : Obsolete start input properties ignoreCase path)
    (hhistory : Relation.ReflTransGen (Event input properties ignoreCase path source.content) start fs)
    (hopened : openFile fs name input properties ignoreCase path = (.ok file, fs')) :
    (∃ records, allRecords fs input = .ok records ∧
      SuffixFile.decode? (SuffixFile.encode ignoreCase (SuffixFile.tablesOf ignoreCase properties records)) =
        some file) ∧
    ∀ otherPath fresh g, build fs name input properties ignoreCase otherPath = (.ok fresh, g) →
      ∀ h filters guarded,
        (covering name input properties (.substringFile ignoreCase properties file)).positions h input filters guarded =
        (covering name input properties (.substringFile ignoreCase properties fresh)).positions h input filters
          guarded := by
  have hfile : ∃ records, allRecords fs input = .ok records ∧
      SuffixFile.decode? (SuffixFile.encode ignoreCase (SuffixFile.tablesOf ignoreCase properties records)) =
        some file := by
    obtain ⟨hcurrent, -⟩ | ⟨-, hbuilt⟩ := openFile_cases hopened
    · obtain ⟨old, hold, hnew, hread, hsuits⟩ := of_current?_eq_some hcurrent
      have hnew := hnew source.modified (FileSystem.modified?_of_file hsource)
      rcases hstart.trusted.history hhistory old (FileSystem.lookup_of_file? hold) source hsource rfl with
        holder | hnone | ⟨records, hrecords, hcontent⟩
      · exact absurd hnew (Nat.not_le.2 holder)
      · exact absurd hsuits (Bool.eq_false_iff.1 (hnone file hread))
      · exact ⟨records, hrecords, hcontent ▸ hread⟩
    · obtain ⟨records, hrecords, hread, -⟩ := ok_of_build hbuilt
      exact ⟨records, hrecords, hread⟩
  refine ⟨hfile, fun otherPath fresh g hfresh h filters guarded => ?_⟩
  obtain ⟨records, hrecords, hread⟩ := hfile
  obtain ⟨records', hrecords', hread', -⟩ := ok_of_build hfresh
  obtain rfl : records = records' := Except.ok.inj (hrecords.symm.trans hrecords')
  obtain rfl : file = fresh := Option.some.inj (hread.symm.trans hread')
  rfl

/-- An index of the first table is opened twice: the second time, the file that has been built is taken over. -/
theorem openFile_like_build_letter :
    openFile (.withLetter "cells" "p") "first" (.ofTable "u") ["cell"] false "cells" =
      (.ok (.ofLetter "p"), .withLetter "cells" "p") ∧
    (∃ records, allRecords (.withLetter "cells" "p") (.ofTable "u") = .ok records ∧
      SuffixFile.decode? (SuffixFile.encode false (SuffixFile.tablesOf false ["cell"] records)) =
        some (.ofLetter "p")) ∧
    ∀ otherPath fresh g,
      build (.withLetter "cells" "p") "first" (.ofTable "u") ["cell"] false otherPath = (.ok fresh, g) →
      ∀ h filters guarded,
        (covering "first" (.ofTable "u") ["cell"] (.substringFile false ["cell"] (.ofLetter "p"))).positions h
          (.ofTable "u") filters guarded =
        (covering "first" (.ofTable "u") ["cell"] (.substringFile false ["cell"] fresh)).positions h (.ofTable "u")
          filters guarded := by
  have hbuilt : openFile .twoTables "first" (.ofTable "u") ["cell"] false "cells" =
      (.ok (.ofLetter "p"), .withLetter "cells" "p") := by cbv
  have hopened : openFile (.withLetter "cells" "p") "first" (.ofTable "u") ["cell"] false "cells" =
      (.ok (.ofLetter "p"), .withLetter "cells" "p") := by cbv
  have hbefore : FileSystem.twoTables.file? (Input.ofTable "u").path = some ⟨[112, 10], 0⟩ := by cbv
  have hafter : (FileSystem.withLetter "cells" "p").file? (Input.ofTable "u").path = some ⟨[112, 10], 0⟩ := by cbv
  have hstart : Obsolete .twoTables (.ofTable "u") ["cell"] false "cells" := by
    intro old hold
    cases (show FileSystem.twoTables.files.lookup (Path.location "cells") = none by cbv).symm.trans hold
  refine ⟨hopened, openFile_like_build hafter hstart (.single (.opened hbuilt rfl ?_ ?_ ?_)) hopened⟩
  · exact fun _ _ _ _ _ => rfl
  · intro fault hfault
    cases hfault
  · intro source' hsource'
    obtain rfl := Option.some.inj (hafter.symm.trans hsource')
    exact .inl ⟨_, hbefore, rfl, Nat.le_refl 0⟩

end Index

/-! ## Too many properties -/

namespace SuffixFile

theorem start_replicate (t : SuffixTable) (n : Nat) : start (List.replicate n t) = 16 + n * headSize t := by
  suffices h : ∀ size, (List.replicate n t).foldl (fun size t => size + headSize t) size = size + n * headSize t from
    h 16
  induction n with
  | zero => simp
  | succ n ih =>
    intro size
    rw [List.replicate_succ, List.foldl_cons, ih, Nat.succ_mul]
    omega

theorem length_encode_replicate (ignoreCase : Bool) (t : SuffixTable) (n : Nat) :
    (encode ignoreCase (List.replicate n t)).length = 16 + n * (headSize t + t.body.length) := by
  rw [encode_eq, List.length_append, length_heads, start_replicate, List.length_flatMap, List.map_replicate,
    List.sum_replicate, smul_eq_mul, Nat.mul_add, Nat.add_assoc]

/-- The table of the cells of the second table. -/
def cells : SuffixTable := .ofKeys "cell" [("q", 0)]

/-- What is read of a file with this table `n` times, if only one is counted. -/
def overlong (n : Nat) : SuffixFile :=
  ⟨encode false (List.replicate n cells), 0,
    (regionsFrom (start (List.replicate n cells)) (List.replicate n cells)).take 1⟩

variable {n : Nat}

theorem length_overlong (h : n < 2 ^ 40) : (overlong n).data.length < 2 ^ 64 := by
  have hsize : headSize cells + cells.body.length = 61 := by cbv
  rw [overlong, length_encode_replicate, hsize]
  omega

theorem decode?_overlong (hcount : n % 2 ^ 32 = 1) (h : n < 2 ^ 40) :
    decode? (overlong n).data = some (overlong n) := by
  have hcells : ∀ t ∈ List.replicate n cells, t = cells := fun t ht => List.eq_of_mem_replicate ht
  have hproperty : cells.property.utf8ByteSize < 2 ^ 32 := by decide
  have hread := decode?_encode_mod (fun t ht => hcells t ht ▸ hproperty)
    (fun t ht => hcells t ht ▸ SuffixTable.within_ofKeys _ _) (length_overlong h)
  rw [List.length_replicate, hcount] at hread
  exact hread

/-- The file has one region, and no cell in it contains another letter. -/
theorem search_overlong (hcount : n % 2 ^ 32 = 1) (h : n < 2 ^ 40) :
    ∃ r, (overlong n).regions = [r] ∧ r.property = "cell" ∧ (overlong n).search r "p" = .ok [] := by
  obtain ⟨m, rfl⟩ : ∃ m, n = m + 1 := ⟨n - 1, by omega⟩
  have hholds := holds_regionsFrom (length_overlong h) (encode_eq false (List.replicate (m + 1) cells))
  rw [length_heads] at hholds
  have hregions : (overlong (m + 1)).regions =
      (regionsFrom (start (List.replicate (m + 1) cells)) (List.replicate (m + 1) cells)).take 1 := rfl
  generalize regionsFrom _ _ = regions at hholds hregions
  rw [List.replicate_succ] at hholds
  cases hholds with
  | @cons r _ _ _ hfirst _ =>
    refine ⟨r, hregions, hfirst.property, ?_⟩
    unfold search
    rw [hfirst.entries, hfirst.keys]
    cbv

end SuffixFile

namespace Index

open SuffixFile

/-- **An index with too many properties leaves a file that suits the first of them.** It cannot be opened since the file
does not suit its own properties; but an index of another table takes the file over and does not find its record. -/
theorem openFile_overlong {n : Nat} (hcount : n % 2 ^ 32 = 1) (hne : n ≠ 1) (hn : n < 2 ^ 40) :
    openFile .twoTables "second" (.ofTable "v") (List.replicate n "cell") false "cells" =
        (.error (Cause.indexFileMismatch "cells" "second"), .withBytes (overlong n).data) ∧
      openFile (.withBytes (overlong n).data) "first" (.ofTable "u") ["cell"] false "cells" =
        (.ok (overlong n), .withBytes (overlong n).data) ∧
      (covering "first" (.ofTable "u") ["cell"] (.substringFile false ["cell"] (overlong n))).yield
        (.withBytes (overlong n).data) (.ofTable "u") [("cell", .string "p")] = .ok [] := by
  obtain ⟨r, hregions, hproperty, hsearch⟩ := search_overlong hcount hn
  have hread := decode?_overlong hcount hn
  have hproperties : (overlong n).regions.map SuffixRegion.property = ["cell"] := by
    rw [hregions, List.map_singleton, hproperty]
  refine ⟨?_, ?_, ?_⟩
  · -- the file is written, but what is read of it is for one property
    have hdirectory : FileSystem.twoTables.isDirectory "cells" = false := by cbv
    have hnone (properties : List String) :
        current? .twoTables (.ofTable "v") properties false "cells" = .ok none := by cbv
    have hrecords : allRecords .twoTables (.ofTable "v") = .ok [(0, ⟨[("cell", .string "q")]⟩)] := by cbv
    have htables : (List.replicate n "cell").map (fun property => SuffixTable.ofKeys property
        (keysOf false [(0, ⟨[("cell", .string "q")]⟩)] property)) = List.replicate n cells := by
      rw [List.map_replicate]
      rfl
    have hwritten (content : List UInt8) :
        writeFile .twoTables "cells" content = (.ok (), .withBytes content) := by cbv
    have hfile (content : List UInt8) : (FileSystem.withBytes content).file? "cells" = some ⟨content, 1⟩ := by cbv
    have hsuits : (overlong n).suits (List.replicate n "cell") false = false := by
      refine Bool.eq_false_iff.2 fun h => hne ?_
      have hlength := congrArg List.length (hproperties.symm.trans (suits_iff.1 h).2)
      rw [List.length_replicate] at hlength
      exact hlength.symm
    unfold openFile
    rw [hdirectory, hnone]
    simp only [Bool.false_eq_true, if_false]
    unfold build
    rw [hrecords]
    simp only
    rw [htables, hwritten]
    simp only [hfile, Option.bind_some]
    rw [show decode? (encode false (List.replicate n cells)) = some (overlong n) from hread]
    simp only [Option.filter, hsuits, Bool.false_eq_true, if_false]
    rfl
  · have hdirectory (content : List UInt8) : (FileSystem.withBytes content).isDirectory "cells" = false := by cbv
    have hcurrent (content : List UInt8) : current? (.withBytes content) (.ofTable "u") ["cell"] false "cells" =
        .ok ((decode? content).filter fun f => f.suits ["cell"] false) := by cbv
    have hsuits : (overlong n).suits ["cell"] false = true := suits_iff.2 ⟨rfl, hproperties⟩
    unfold openFile
    rw [hdirectory, hcurrent, hread, Option.filter, hsuits]
    rfl
  · have hlookup : (["cell"].zip (overlong n).regions).lookup "cell" = some r := by
      rw [hregions]
      rfl
    have hpositions : (Tables.substringFile false ["cell"] (overlong n)).positionsOf [("cell", .string "p")] =
        .ok (some [[]]) := by
      unfold Tables.positionsOf Tables.positions?
      simp only [Value.key?, hlookup, foldKey, Bool.false_eq_true, if_false, hsearch]
      cbv
    unfold yield positions covering
    simp only
    rw [verify_ok rfl (by simp) (by simp [Fields.names]), hpositions]
    cbv

/-! ## Unlike fresh files -/

/-- The file of the first table has got another letter later than its index file, and has been set back in time. -/
def setBack : FileSystem :=
  (((FileSystem.withLetter "cells" "p").put "u.csv" ⟨[113, 10], 2⟩).getD (.empty 0)).touch "u.csv" 0

/-- **Index files which are taken over do not always answer like fresh ones.** An index of the second table takes over
the file that has been built at the same path for the first table; an index of the first table takes over its file if
its table has changed later but has been set back in time; and it takes over the file that an index of the second table
has left which could not be opened, since it has too many properties. -/
theorem openFile_unlike_build :
    (openFile .twoTables "first" (.ofTable "u") ["cell"] false "cells" =
        (.ok (.ofLetter "p"), .withLetter "cells" "p") ∧
      openFile (.withLetter "cells" "p") "second" (.ofTable "v") ["cell"] false "cells" =
        (.ok (.ofLetter "p"), .withLetter "cells" "p") ∧
      (build (.withLetter "cells" "p") "second" (.ofTable "v") ["cell"] false "other").1 = .ok (.ofLetter "q") ∧
      (ofLetter "second" "v" "p").yield (.withLetter "cells" "p") (.ofTable "v") [("cell", .string "p")] =
        .ok [.ok 0] ∧
      (ofLetter "second" "v" "q").yield (.withLetter "cells" "p") (.ofTable "v") [("cell", .string "p")] = .ok []) ∧
    (openFile setBack "first" (.ofTable "u") ["cell"] false "cells" = (.ok (.ofLetter "p"), setBack) ∧
      (build setBack "first" (.ofTable "u") ["cell"] false "other").1 = .ok (.ofLetter "q") ∧
      (ofLetter "first" "u" "p").yield setBack (.ofTable "u") [("cell", .string "p")] = .ok [.ok 0] ∧
      (ofLetter "first" "u" "q").yield setBack (.ofTable "u") [("cell", .string "p")] = .ok []) ∧
    ∃ file fault, openFile .twoTables "second" (.ofTable "v") (List.replicate (2 ^ 32 + 1) "cell") false "cells" =
        (.error fault, .withBytes file.data) ∧
      openFile (.withBytes file.data) "first" (.ofTable "u") ["cell"] false "cells" =
        (.ok file, .withBytes file.data) ∧
      (build (.withBytes file.data) "first" (.ofTable "u") ["cell"] false "other").1 = .ok (.ofLetter "p") ∧
      (covering "first" (.ofTable "u") ["cell"] (.substringFile false ["cell"] file)).yield (.withBytes file.data)
        (.ofTable "u") [("cell", .string "p")] = .ok [] ∧
      (ofLetter "first" "u" "p").yield (.withBytes file.data) (.ofTable "u") [("cell", .string "p")] =
        .ok [.ok 0] := by
  have hfresh (content : List UInt8) :
      (build (.withBytes content) "first" (.ofTable "u") ["cell"] false "other").1 = .ok (.ofLetter "p") ∧
        (ofLetter "first" "u" "p").yield (.withBytes content) (.ofTable "u") [("cell", .string "p")] =
          .ok [.ok 0] := by
    constructor <;> cbv
  refine ⟨⟨?_, ?_, ?_, ?_, ?_⟩, ⟨?_, ?_, ?_, ?_⟩, ?_⟩
  case refine_10 =>
    obtain ⟨hfailed, hopened, hyield⟩ := @openFile_overlong (2 ^ 32 + 1) (by decide) (by decide) (by decide)
    exact ⟨_, _, hfailed, hopened, (hfresh _).1, hyield, (hfresh _).2⟩
  all_goals cbv

end Index

end RecordServer
