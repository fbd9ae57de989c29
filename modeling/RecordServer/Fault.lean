import RecordServer.Value

/-!
# Faults

What can go wrong, as causes rather than texts. A `Fault` is a `Cause` behind the contexts in which it arose, the
outermost first; a `Problem` is what is wrong with one place of the configuration. All wording is in this module
(`Problem.text`, `Cause.text`, `Context.text`); a fault is worded as its links joined by colons (`Fault.text`).

What is reported by something outside of the library, such as the operating system, is an `External` cause. Its
wording is a parameter of all functions here.
-/

namespace RecordServer

/-- Where a fault outside of the library comes from. -/
inductive External where
  /-- Malformed JSON. -/
  | json
  /-- Bytes that are no UTF-8. -/
  | utf8
  /-- Malformed XML. -/
  | xml
  /-- A table that cannot be read. -/
  | csv
  /-- The operating system. -/
  | io
  /-- Malformed YAML. -/
  | yaml
  /-- A malformed regular expression. -/
  | regexp
  deriving DecidableEq, Repr

/-- What is wrong with a certificate. -/
inductive CertificateFlaw where
  /-- The bytes are no certificate. -/
  | badEncoding
  | unsupportedVersion
  /-- The algorithm of the signature is stated twice, but not in the same way. -/
  | signatureAlgorithmMismatch
  /-- An extension is repeated. -/
  | extensionValueInvalid
  /-- An extension has to be understood, but is not. -/
  | unsupportedCriticalExtension
  deriving DecidableEq, Repr

/-- The wording of a flaw. -/
def CertificateFlaw.text : CertificateFlaw → String
  | badEncoding => "BadEncoding"
  | unsupportedVersion => "Other(OtherError(UnsupportedCertVersion))"
  | signatureAlgorithmMismatch => "Other(OtherError(SignatureAlgorithmMismatch))"
  | extensionValueInvalid => "Other(OtherError(ExtensionValueInvalid))"
  | unsupportedCriticalExtension => "Other(OtherError(UnsupportedCriticalExtension))"

/-! ## Why certificates and keys do not fit -/

/-- Why a certificate and a private key do not fit. -/
inductive Mismatch where
  | unusableKey
  | unusableCertificate (flaw : CertificateFlaw)
  | otherKey
  deriving DecidableEq, Repr

/-- The wording of a mismatch. -/
def Mismatch.text : Mismatch → String
  | unusableKey => "unexpected error: failed to parse private key as RSA, ECDSA, or EdDSA"
  | unusableCertificate flaw => "invalid peer certificate: " ++ flaw.text
  | otherKey => "keys may not be consistent: KeyMismatch"

/-- A list of words for a message. -/
def enumeration (words : List String) : String := String.intercalate ", " words

/-! ## Problems of the configuration -/

/-- What is wrong with one place of the configuration. -/
inductive Problem where
  | keyNotString
  | expectedMap
  | expectedList
  | expectedString
  | expectedBoolean
  | expectedNatural
  | missingValue
  | unknownKey (key : String) (supported : List String)
  | unknownType (type : String) (supported : List String)
  | notOneCharacter (value : String)
  | unknownCharset (label : String)
  | invalidRegexp
  | noSeparator
  | noValues
  | builtInParser
  | unknownParser (name : String)
  | notPrimitive (name : String)
  | delimiterNotAscii
  | repeatedColumn (name : String)
  | noColumns
  | ambiguousColumn
  | booleanAndFloat
  | unknownSource (name : String)
  | missingFile (file : String)
  | unknownInput (name : String)
  | unknownProperty (input property : String)
  | isDirectory (file : String)
  | noProperties
  | builtInIndex
  | inputRequired
  | unknownIndex (name : String)
  | foreignIndex (index input : String)
  | unindexedProperty (index property : String)
  | graphql
  | endpointNotAbsolute
  | invalidLimit (default max : Nat)
  | sameParameters
  | reservedParameter (name : String)
  | noWildcard
  | repeatedParameter (name : String)
  | wildcardCount (wildcards parameters : Nat)
  | tooDeep (max : Nat)
  | limitWithoutArray
  | sortWithoutArray
  | repeatedMatch (property : String)
  | halfEncrypted
  | unknownOutput (name : String)
  | sharedEndpoint (endpoint first second : String)
  | noCertificate (file : String)
  | noPrivateKey (file : String)
  | mismatch (reason : Mismatch)
  deriving DecidableEq, Repr

namespace Problem

/-- The wording of a problem. -/
def text (describe : External → String) : Problem → String
  | keyNotString => "Only strings can be used as keys"
  | expectedMap => "Expected a map"
  | expectedList => "Expected a list"
  | expectedString => "Expected a string"
  | expectedBoolean => "Expected a boolean (true or false)"
  | expectedNatural => "Expected a non-negative integer"
  | missingValue => "Missing required value"
  | unknownKey key supported => "Unknown key '" ++ key ++ "'. Supported keys are: " ++ enumeration supported
  | unknownType type supported => "Unknown type '" ++ type ++ "'. Supported types are: " ++ enumeration supported
  | notOneCharacter value => "Expected a single character but got '" ++ value ++ "'"
  | unknownCharset label => "Unknown charset '" ++ label ++ "'"
  | invalidRegexp => "Invalid regular expression: " ++ describe .regexp
  | noSeparator => "A split parser requires either a non-empty 'separator' or a 'regexp'"
  | noValues => "At least one value has to be given"
  | builtInParser => "A built-in parser cannot be redeclared"
  | unknownParser name => "Unknown parser '" ++ name ++ "'"
  | notPrimitive name => "The parser '" ++ name ++ "' is not a primitive and cannot be used to filter"
  | delimiterNotAscii => "The delimiter has to be an ASCII character"
  | repeatedColumn name => "The column '" ++ name ++ "' is declared twice"
  | noColumns => "At least one column has to be declared"
  | ambiguousColumn =>
    "A column either specifies a 'parser' or inline boolean values or a decimal separator"
  | booleanAndFloat => "A column cannot be both, a boolean and a float"
  | unknownSource name => "Unknown source '" ++ name ++ "'"
  | missingFile file => file ++ " does not exist or isn't a file"
  | unknownInput name => "Unknown input '" ++ name ++ "'"
  | unknownProperty input property => "The input '" ++ input ++ "' has no property '" ++ property ++ "'"
  | isDirectory file => file ++ " is a directory"
  | noProperties => "At least one property has to be given"
  | builtInIndex => "The built-in default index cannot be redeclared"
  | inputRequired => "The index requires an input"
  | unknownIndex name => "Unknown index '" ++ name ++ "'"
  | foreignIndex index input => "The index '" ++ index ++ "' cannot be used for the input '" ++ input ++ "'"
  | unindexedProperty index property => "The index '" ++ index ++ "' cannot filter on '" ++ property ++ "'"
  | graphql => "GraphQL outputs are not supported"
  | endpointNotAbsolute => "The endpoint has to start with a '/'"
  | invalidLimit default max =>
    "The default limit (" ++ toString default ++ ") has to be positive and must not exceed the maximal limit (" ++
      toString max ++ ")"
  | sameParameters => "The offset and limit parameters must have different names"
  | reservedParameter name => "The parameter name '" ++ name ++ "' collides with the limit or offset parameter"
  | noWildcard => "The endpoint has to contain at least one '?'"
  | repeatedParameter name => "The parameter '" ++ name ++ "' is declared twice"
  | wildcardCount wildcards parameters =>
    "The endpoint contains " ++ toString wildcards ++ " '?' but " ++ toString parameters ++ " parameters are declared"
  | tooDeep max =>
    "Relationships must not be nested deeper than " ++ toString max ++ " levels. Is the configuration cyclic?"
  | limitWithoutArray => "A limit can only be applied if 'isArray' is true"
  | sortWithoutArray => "Sorting can only be applied if 'isArray' is true"
  | repeatedMatch property => "The child property '" ++ property ++ "' is matched twice"
  | halfEncrypted => "Either both, 'certificate' and 'privateKey' or none of them have to be given"
  | unknownOutput name => "Unknown output '" ++ name ++ "'"
  | sharedEndpoint endpoint first second =>
    "The endpoint " ++ endpoint ++ " is served by both '" ++ first ++ "' and '" ++ second ++ "'"
  | noCertificate file => file ++ " contains no certificate"
  | noPrivateKey file => file ++ " contains no private key"
  | mismatch reason => "The certificate doesn't match the private key: " ++ reason.text

end Problem

/-! ## Causes and contexts -/

/-- Why something failed. -/
inductive Cause where
  | external (source : External)
  | located (path : String) (problem : Problem)
  | stated (text : String)
  | cancelled
  | configNotMap
  | parserCycle
  | booleanWithoutValues
  | notInteger (value : String)
  | notFloat (value : String)
  | notBoolean (value : String) (expected : List String)
  | notInCharset (charset : String)
  | parsersGone
  | unknownInner (parser inner : String)
  | noRecord (position : Position) (file : String)
  | expectedObject (element offset : Nat)
  | unexpectedByte (byte : UInt8) (offset : Nat)
  | unexpectedEnd (offset : Nat)
  | unclosedElement (name : String)
  | recordPathNotAbsolute (path : String)
  | recordPathWithOtherSteps (path : String)
  | pathNotRelative (path : String)
  | invalidPath (path : String)
  | stepAfterLast (path : String)
  | unsupportedStep (path step : String)
  | foreignIndex (index input : String)
  | filterRequired (index : String)
  | unindexedProperty (index property : String)
  | indexFileIsDirectory (file index : String)
  | indexFileMismatch (file index : String)
  /-- An index file says that its keys end before they begin. Looking into it ends the request without an answer. -/
  | unsearchable (property : String)
  | missingParentProperty (relation property : String)
  | incomparable (a b : Kind)
  /-- Records cannot be sorted, because their order contradicts itself. This ends the request without an answer. -/
  | contradictoryOrder
  | limitNotPositive (parameter : String)
  | offsetNegative (parameter : String)
  | unknownParameter (name : String)
  | unknownPath (path : String)
  | noMatch (path : String)
  deriving DecidableEq, Repr

namespace Cause

/-- The wording of a cause. The kinds of two values that cannot be sorted are named in alphabetical order. -/
def text (describe : External → String) : Cause → String
  | external source => describe source
  | located path problem => path ++ ": " ++ problem.text describe
  | stated text => text
  | cancelled => "The client is no longer connected"
  | configNotMap => "The config has to be a map"
  | parserCycle => "The parsers form a cycle"
  | booleanWithoutValues => "A boolean parser requires at least one true and one false value"
  | notInteger value => "Cannot parse '" ++ value ++ "' as integer"
  | notFloat value => "Cannot parse '" ++ value ++ "' as float"
  | notBoolean value expected =>
    "Cannot parse '" ++ value ++ "' as boolean. Expected one of: " ++ enumeration expected
  | notInCharset charset => "The value is not valid " ++ charset
  | parsersGone => "The parser registry has already been dropped"
  | unknownInner parser inner => "The parser '" ++ parser ++ "' refers to the unknown parser '" ++ inner ++ "'"
  | noRecord position file => "There is no record at position " ++ toString position ++ " in " ++ file
  | expectedObject element offset =>
    "Expected an object as element " ++ toString element ++ " (at offset " ++ toString offset ++ ")"
  | unexpectedByte byte offset =>
    "Unexpected character '" ++ String.ofList [Char.ofNat byte.toNat] ++ "' at offset " ++ toString offset ++
      ". Expected a single array of objects"
  | unexpectedEnd offset => "Unexpected end of file at offset " ++ toString offset
  | unclosedElement name => "Unexpected end of file within <" ++ name ++ ">"
  | recordPathNotAbsolute path => "The record path '" ++ path ++ "' has to start with '/'"
  | recordPathWithOtherSteps path => "The record path '" ++ path ++ "' may only consist of element names"
  | pathNotRelative path => "The path '" ++ path ++ "' has to be relative to its record"
  | invalidPath path => "Invalid path '" ++ path ++ "'"
  | stepAfterLast path => "Invalid path '" ++ path ++ "': Attributes and text() have to be the last step"
  | unsupportedStep path step => "Invalid path '" ++ path ++ "': Unsupported step '" ++ step ++ "'"
  | foreignIndex index input => "The index '" ++ index ++ "' cannot be used for the input '" ++ input ++ "'"
  | filterRequired index => "The index '" ++ index ++ "' requires at least one filter"
  | unindexedProperty index property => "The index '" ++ index ++ "' cannot filter on '" ++ property ++ "'"
  | indexFileIsDirectory file index => "The index file " ++ file ++ " of '" ++ index ++ "' is a directory"
  | indexFileMismatch file index => "The rebuilt index file " ++ file ++ " doesn't match the index '" ++ index ++ "'"
  | unsearchable property => "The table of '" ++ property ++ "' cannot be searched"
  | missingParentProperty relation property =>
    "The relationship '" ++ relation ++ "' requires the property '" ++ property ++ "' which is missing"
  | incomparable a b =>
    let (first, second) := if b.name < a.name then (b.name, a.name) else (a.name, b.name)
    "Cannot compare " ++ first ++ " with " ++ second
  | contradictoryOrder => "The order of the records contradicts itself"
  | limitNotPositive parameter => "The '" ++ parameter ++ "' parameter must be a positive and non-zero number."
  | offsetNegative parameter => "The '" ++ parameter ++ "' parameter must be a non-negative number."
  | unknownParameter name => "Unknown parameter '" ++ name ++ "'"
  | unknownPath path => "Unknown path: " ++ path
  | noMatch path => "No record matches " ++ path

end Cause

/-- What was being done when something failed. -/
inductive Context where
  | stated (text : String)
  | place (path : String)
  | opening (file : String)
  | reading (file : String)
  | loadingConfig (file : String)
  | parsingConfig
  | decodingUtf8
  | parsingJson
  | parsingColumn (column : String) (position : Position) (file : String)
  | parsingRecord (position : Position) (file : String)
  | readingRecord (position : Position) (file : String)
  | parsingProperty (property : String)
  | parsingParameter (parameter : String)
  | creatingDirectory (directory : String)
  | writingIndexFile (file : String)
  | moving (source target : String)
  | parsingCertificates (path : String)
  | parsingPrivateKey (path : String)
  | listening (path address : String)
  deriving DecidableEq, Repr

namespace Context

/-- The wording of a context. -/
def text : Context → String
  | stated text => text
  | place path => path
  | opening file => "Cannot open " ++ file
  | reading file => "Failed to read " ++ file
  | loadingConfig file => "Cannot load config file " ++ file
  | parsingConfig => "Cannot parse config"
  | decodingUtf8 => "The value is not valid UTF-8"
  | parsingJson => "Cannot parse value as JSON"
  | parsingColumn column position file =>
    "Cannot parse column '" ++ column ++ "' of the row at position " ++ toString position ++ " in " ++ file
  | parsingRecord position file => "Cannot parse the record at position " ++ toString position ++ " in " ++ file
  | readingRecord position file => "Failed to read the record at position " ++ toString position ++ " in " ++ file
  | parsingProperty property => "Cannot parse property '" ++ property ++ "'"
  | parsingParameter parameter => "Cannot parse the '" ++ parameter ++ "' parameter"
  | creatingDirectory directory => "Cannot create the directory " ++ directory
  | writingIndexFile file => "Cannot write the index file " ++ file
  | moving source target => "Cannot move " ++ source ++ " to " ++ target
  | parsingCertificates path => path ++ ": Cannot parse the certificates"
  | parsingPrivateKey path => path ++ ": Cannot parse the private key"
  | listening path address => path ++ ": Cannot open server socket on " ++ address

end Context

/-! ## Faults -/

/-- A cause behind the contexts in which it arose, the outermost first. -/
structure Fault where
  contexts : List Context
  cause : Cause
  deriving DecidableEq, Repr

instance : Inhabited Fault := ⟨⟨[], .cancelled⟩⟩

instance : Coe Cause Fault := ⟨fun cause => ⟨[], cause⟩⟩

namespace Fault

/-- A problem at a place of the configuration. -/
def located (path : String) (problem : Problem) : Fault := Cause.located path problem

/-- The fault within one more context. -/
def within (context : Context) (fault : Fault) : Fault := ⟨context :: fault.contexts, fault.cause⟩

/-- Whether the client has gone away. -/
def isCancelled (fault : Fault) : Bool := fault.cause = .cancelled

/-- Whether nothing can be answered any more. -/
def isFatal (fault : Fault) : Bool :=
  match fault.cause with
  | .unsearchable _ | .contradictoryOrder => true
  | _ => false

/-- The wordings of the links of a fault. -/
def links (describe : External → String) (fault : Fault) : List String :=
  fault.contexts.map Context.text ++ [fault.cause.text describe]

/-- The wording of a fault: its links joined by colons. -/
def text (describe : External → String) (fault : Fault) : String := String.intercalate ": " (fault.links describe)

/-- The outermost link of a fault alone. -/
def outermost (fault : Fault) : Fault :=
  match fault.contexts with
  | [] => fault
  | context :: _ => Cause.stated context.text

/-- A fault outside of the library. -/
def external (source : External) : Fault := Cause.external source

end Fault

/-- The result of an action, with its faults put into a context. -/
def Context.around (context : Context) : Except Fault α → Except Fault α
  | .ok a => .ok a
  | .error fault => .error (fault.within context)

end RecordServer
