import RecordServer.Regexp.Chars
import RecordServer.Regexp.Property.Age
import RecordServer.Regexp.Property.Binary
import RecordServer.Regexp.Property.Boundary
import RecordServer.Regexp.Property.Category
import RecordServer.Regexp.Property.Script

/-!
# Properties of characters

Sets of characters by the names of Unicode properties: `Property.named?` for a binary property, a general category or a
script, `Property.valued?` for a value of another property. Names are compared without case, blanks, hyphens, low
lines and a leading `is`.
-/

namespace RecordServer.Regexp.Property

/-! ## Names -/

/-- What distinguishes a name from others. The one name which would lose itself with a leading `is` keeps it. -/
def key (name : String) : String :=
  let (hasIs, cs) := match name.toList with
    | a :: b :: rest => if (a = 'i' ∨ a = 'I') ∧ (b = 's' ∨ b = 'S') then (true, rest) else (false, a :: b :: rest)
    | cs => (false, cs)
  let cs := (cs.filter fun c => c ≠ ' ' && c ≠ '_' && c ≠ '-' && c.toNat < 128).map Char.toLower
  if hasIs ∧ cs = ['c'] then "isc" else String.ofList cs

/-- Whether one of some names has a key. -/
def isNamed (names : List String) (k : String) : Bool := names.any fun name => key name == k

/-! ## Derived sets -/

/-- A class of a partition by the key of its name. -/
def ofPartition? (p : Text.Partition) (k : String) : Option Chars :=
  (p.names.findIdx? (isNamed · k)).map fun i => .ofList (p.only (· == i))

/-- The characters of some general categories. -/
def ofCategories (chosen : List String) : Chars :=
  .ofList (categories.only fun i => (categories.names.getD i []).any chosen.contains)

/-- The characters of a binary property that is not derived. -/
def ofBinary (name : String) : Chars :=
  match binaries.find? fun b => b.1.contains name with
  | some b => .ofList (Text.Intervals.ofSource b.2).toList
  | none => .empty

/-- The characters of a class for the boundaries of words. -/
def ofWordBreak (name : String) : Chars := (ofPartition? wordBreaks (key name)).getD .empty

/-- The property `Lowercase`. -/
def lowercase : Chars := (ofCategories ["Ll"]).union (ofBinary "Other_Lowercase")

/-- The property `Uppercase`. -/
def uppercase : Chars := (ofCategories ["Lu"]).union (ofBinary "Other_Uppercase")

/-- The property `Cased`. -/
def cased : Chars := (lowercase.union uppercase).union (ofCategories ["Lt"])

/-- The property `Case_Ignorable`. -/
def caseIgnorable : Chars :=
  (((ofCategories ["Mn", "Me", "Cf", "Lm", "Sk"]).union (ofWordBreak "MidLetter")).union
    (ofWordBreak "MidNumLet")).union (ofWordBreak "Single_Quote")

/-- The property `Alphabetic`. -/
def alphabetic : Chars :=
  ((lowercase.union uppercase).union (ofCategories ["Lt", "Lm", "Lo", "Nl"])).union (ofBinary "Other_Alphabetic")

/-- The property `Math`. -/
def math : Chars := (ofCategories ["Sm"]).union (ofBinary "Other_Math")

/-- The property `Grapheme_Extend`. -/
def graphemeExtend : Chars := (ofCategories ["Me", "Mn"]).union (ofBinary "Other_Grapheme_Extend")

/-- The property `Grapheme_Base`. -/
def graphemeBase : Chars :=
  (ofCategories ["Cc", "Cf", "Cs", "Co", "Cn", "Zl", "Zp"]).complement.difference graphemeExtend

/-- What stands for itself in patterns. -/
def patternCharacters : Chars := (ofBinary "Pattern_Syntax").union (ofBinary "Pattern_White_Space")

/-- The property `ID_Start`. -/
def idStart : Chars :=
  ((ofCategories ["Lu", "Ll", "Lt", "Lm", "Lo", "Nl"]).union (ofBinary "Other_ID_Start")).difference patternCharacters

/-- The property `ID_Continue`. -/
def idContinue : Chars :=
  ((idStart.union (ofCategories ["Mn", "Mc", "Nd", "Pc"])).union (ofBinary "Other_ID_Continue")).difference
    patternCharacters

/-- The characters which may continue an identifier, but not once the text has been normalised. -/
def brokenContinue : Chars :=
  .ofList [(0x37A, 0x37A), (0x309B, 0x309C), (0xFC5E, 0xFC63), (0xFDFA, 0xFDFB), (0xFE70, 0xFE70), (0xFE72, 0xFE72),
    (0xFE74, 0xFE74), (0xFE76, 0xFE76), (0xFE78, 0xFE78), (0xFE7A, 0xFE7A), (0xFE7C, 0xFE7C), (0xFE7E, 0xFE7E)]

/-- The characters which may start an identifier, but not once the text has been normalised. -/
def brokenStart : Chars := brokenContinue.union (.ofList [(0xE33, 0xE33), (0xEB3, 0xEB3), (0xFF9E, 0xFF9F)])

/-- The binary properties that are derived from others: the names of each and its characters. -/
def derived : List (List String × (Unit → Chars)) :=
  [(["Alpha", "Alphabetic"], fun _ => alphabetic), (["CI", "Case_Ignorable"], fun _ => caseIgnorable),
   (["Cased"], fun _ => cased), (["Gr_Base", "Grapheme_Base"], fun _ => graphemeBase),
   (["Gr_Ext", "Grapheme_Extend"], fun _ => graphemeExtend), (["IDC", "ID_Continue"], fun _ => idContinue),
   (["IDS", "ID_Start"], fun _ => idStart), (["Lower", "Lowercase"], fun _ => lowercase),
   (["Math"], fun _ => math), (["Upper", "Uppercase"], fun _ => uppercase),
   (["XIDC", "XID_Continue"], fun _ => idContinue.difference brokenContinue),
   (["XIDS", "XID_Start"], fun _ => idStart.difference brokenStart)]

/-! ## Looking up -/

/-- A binary property. -/
def binary? (k : String) : Option Chars :=
  match derived.find? fun d => isNamed d.1 k, binaries.find? fun b => isNamed b.1 k with
  | some d, _ => some (d.2 ())
  | none, some b => some (.ofList (Text.Intervals.ofSource b.2).toList)
  | none, none => none

/-- A general category, a group of them, or one of three sets that are named like categories. Surrogates are no
characters. -/
def category? (k : String) : Option Chars :=
  if k = "any" then some Chars.empty.complement
  else if k = "assigned" then some (ofCategories ["Cn"]).complement
  else if k = "ascii" then some (.range 0 127)
  else match categoryGroups.find? fun g => isNamed g.1 k with
    | some g => some (ofCategories g.2)
    | none => if isNamed ["Cs", "Surrogate"] k then none else ofPartition? categories k

/-- A script. -/
def script? (k : String) : Option Chars := ofPartition? scripts k

/-- The code points which are used with other scripts than their own, with the places of these scripts. -/
def extensionsFrom (start : Nat) : Nat → List Nat → List (Nat × Nat × List Nat)
  | n + 1, gap :: extent :: count :: rest =>
    (start + gap, start + gap + extent, rest.take count) ::
      extensionsFrom (start + gap + extent + 1) n (rest.drop count)
  | _, _ => []

/-- The characters which are used with a script. -/
def scriptExtension? (k : String) : Option Chars :=
  (scripts.names.findIdx? (isNamed · k)).map fun i =>
    let numbers := Text.numbers scriptExtensions
    let extensions := extensionsFrom 0 numbers.length numbers
    let others := Chars.ofList (extensions.map fun (first, last, _) => (first, last))
    let used := extensions.filterMap fun (first, last, places) =>
      if places.contains i then some (first, last) else none
    ((Chars.ofList (scripts.only (· == i))).difference others).union (.ofList used)

/-- The characters which had been assigned in a version. -/
def age? (k : String) : Option Chars :=
  (ages.names.findIdx? (isNamed · k)).map fun i => .ofList (ages.only (· ≤ i))

/-- The set that is named by a binary property, a general category or a script. Two general categories are preferred to
properties with the same short name. -/
def named? (name : String) : Option Chars :=
  let k := key name
  match if k = "cf" ∨ k = "sc" ∨ k = "lc" then none else binary? k with
  | some s => some s
  | none =>
    match category? k with
    | some s => some s
    | none => script? k

/-- The characters with a value of a property. -/
def valued? (property value : String) : Option Chars :=
  let k := key property
  let v := key value
  if isNamed ["gc", "General_Category"] k then category? v
  else if isNamed ["sc", "Script"] k then script? v
  else if isNamed ["scx", "Script_Extensions"] k then scriptExtension? v
  else if isNamed ["Age"] k then age? v
  else if isNamed ["GCB", "Grapheme_Cluster_Break"] k then ofPartition? graphemeBreaks v
  else if isNamed ["WB", "Word_Break"] k then ofPartition? wordBreaks v
  else if isNamed ["SB", "Sentence_Break"] k then ofPartition? sentenceBreaks v
  else none

/-! ## Character classes of expressions -/

/-- The decimal digits of all scripts. -/
def digits : Chars := ofCategories ["Nd"]

/-- The property `White_Space`. -/
def blanks : Chars := ofBinary "White_Space"

/-- The characters of words. -/
def words : Chars :=
  ((alphabetic.union (ofCategories ["Mn", "Mc", "Me", "Nd", "Pc"])).union (ofBinary "Join_Control"))

/-- The table of the characters of words. -/
def wordTable : Text.Intervals := words.table

end RecordServer.Regexp.Property
