import RecordServer.Yaml.Node
import RecordServer.Yaml.Token

/-!
# Documents

The nodes of the documents in a text (`Yaml.read?`). The grammar is followed from the tokens downwards; each function
reads one construct and leaves the tokens behind it. What is left out, such as the value of a key, is null.
-/

namespace RecordServer.Yaml

/-- The anchors of a document by name, and the nodes which are complete, by the number of their anchor. -/
structure Anchors where
  count : Nat
  numbers : List (String × Nat)
  nodes : List (Nat × Node)

namespace Anchors

/-- An anchor for the node that begins. -/
def start (a : Anchors) (name : String) : Nat × Anchors :=
  (a.count, ⟨a.count + 1, (name, a.count) :: a.numbers, a.nodes⟩)

/-- The node of an anchor is complete. -/
def close (a : Anchors) (number : Option Nat) (node : Node) : Anchors :=
  match number with
  | some n => { a with nodes := (n, node) :: a.nodes }
  | none => a

/-- The node of an alias, if there is such an anchor. Within its own node it is absent. -/
def node? (a : Anchors) (name : String) : Option Node :=
  (a.numbers.lookup name).map fun n => (a.nodes.lookup n).getD .absent

end Anchors

/-- The anchor and the tag of a node. -/
structure Properties where
  anchor : Option Nat
  tag : Option (String × String)

/-- Reads the properties in front of a node, in either order. -/
def properties (a : Anchors) : List Token → Properties × Anchors × List Token
  | .anchor name :: .tag handle suffix :: rest =>
    let (n, a) := a.start name
    (⟨some n, some (handle, suffix)⟩, a, rest)
  | .tag handle suffix :: .anchor name :: rest =>
    let (n, a) := a.start name
    (⟨some n, some (handle, suffix)⟩, a, rest)
  | .anchor name :: rest =>
    let (n, a) := a.start name
    (⟨some n, none⟩, a, rest)
  | .tag handle suffix :: rest => (⟨none, some (handle, suffix)⟩, a, rest)
  | rest => (⟨none, none⟩, a, rest)

/-- The node of a scalar. -/
def scalarNode (tag : Option (String × String)) (plain : Bool) (text : String) : Node :=
  if !plain then .string text
  else match tag with
    | none => .ofPlain text
    | some ("!!", kind) => .ofTagged kind text
    | some _ => .string text

/-- What has been read, the anchors, and the tokens behind it. -/
abbrev Reading (α : Type) := α × Anchors × List Token

/-- Whether the next token is one of those with which a node that is left out is followed. -/
def ends (tokens : List Token) (followers : List Token) : Bool := tokens.head?.any followers.contains

/-- The node of what has been read of a collection. -/
def collection (make : List Node → Node) (read : Option (Reading (List Node))) : Option (Reading Node) :=
  read.map fun (nodes, a, rest) => (make nodes, a, rest)

mutual

/-- A node. Block collections are allowed only in blocks, and lists without indentation only as values. -/
def node (block unindented : Bool) : Nat → Anchors → List Token → Option (Reading Node)
  | 0, _, _ => none
  | _ + 1, a, .alias name :: rest => (a.node? name).map fun node => (node, a, rest)
  | n + 1, a, tokens => do
    let (props, a, tokens) := properties a tokens
    let (node, a, rest) ← match tokens with
      | .scalar plain text :: rest => some (scalarNode props.tag plain text, a, rest)
      | .flowListStart :: rest => collection .list (flowItems true n [] a rest)
      | .flowMapStart :: rest => collection .ofNodes (flowEntries true n [] a rest)
      | .blockListStart :: rest => if block then collection .list (blockItems n [] a rest) else none
      | .blockMapStart :: rest => if block then collection .ofNodes (blockEntries n [] a rest) else none
      | tokens =>
        if unindented && tokens.head? == some .blockEntry then collection .list (unindentedItems n [] a tokens)
        else if props.anchor.isSome || props.tag.isSome then some (scalarNode props.tag true "", a, tokens)
        else none
    return (node, a.close props.anchor node, rest)

/-- A node, or null in front of certain tokens. -/
def nodeUnless (followers : List Token) (block unindented : Bool) : Nat → Anchors → List Token → Option (Reading Node)
  | 0, _, _ => none
  | n + 1, a, tokens =>
    if ends tokens followers then some (.null, a, tokens) else node block unindented n a tokens

/-- The items of a block list, behind those which have been read, the last first. -/
def blockItems : Nat → List Node → Anchors → List Token → Option (Reading (List Node))
  | 0, _, _, _ => none
  | _ + 1, read, a, .blockEnd :: rest => some (read.reverse, a, rest)
  | n + 1, read, a, .blockEntry :: rest => do
    let (item, a, rest) ← nodeUnless [.blockEntry, .blockEnd] true false n a rest
    blockItems n (item :: read) a rest
  | _ + 1, _, _, _ => none

/-- The items of a list without indentation. -/
def unindentedItems : Nat → List Node → Anchors → List Token → Option (Reading (List Node))
  | 0, _, _, _ => none
  | n + 1, read, a, .blockEntry :: rest => do
    let (item, a, rest) ← nodeUnless [.blockEntry, .key, .value, .blockEnd] true false n a rest
    unindentedItems n (item :: read) a rest
  | _ + 1, read, a, rest => some (read.reverse, a, rest)

/-- The keys and values of a block map in turn. -/
def blockEntries : Nat → List Node → Anchors → List Token → Option (Reading (List Node))
  | 0, _, _, _ => none
  | _ + 1, read, a, .blockEnd :: rest => some (read.reverse, a, rest)
  | n + 1, read, a, .key :: rest => do
    let (key, a, rest) ← nodeUnless [.key, .value, .blockEnd] true true n a rest
    let (value, a, rest) ← blockValue n a rest
    blockEntries n (value :: key :: read) a rest
  | n + 1, read, a, .value :: rest => do
    let (value, a, rest) ← blockValue n a (.value :: rest)
    blockEntries n (value :: .null :: read) a rest
  | _ + 1, _, _, _ => none

/-- The value of a key in a block map. -/
def blockValue : Nat → Anchors → List Token → Option (Reading Node)
  | 0, _, _ => none
  | n + 1, a, .value :: rest => nodeUnless [.key, .value, .blockEnd] true true n a rest
  | _ + 1, a, rest => some (.null, a, rest)

/-- The items of a flow list. -/
def flowItems (first : Bool) : Nat → List Node → Anchors → List Token → Option (Reading (List Node))
  | 0, _, _, _ => none
  | _ + 1, read, a, .flowListEnd :: rest => some (read.reverse, a, rest)
  | n + 1, read, a, tokens => do
    let tokens ← if first then some tokens else match tokens with
      | .flowEntry :: rest => some rest
      | _ => none
    match tokens with
    | .flowListEnd :: rest => some (read.reverse, a, rest)
    | .key :: rest => do
      let (item, a, rest) ← flowPair n a rest
      flowItems false n (item :: read) a rest
    | tokens => do
      let (item, a, rest) ← node false false n a tokens
      flowItems false n (item :: read) a rest

/-- A single entry as an item of a flow list. A token in the place of a left out key is passed over. -/
def flowPair : Nat → Anchors → List Token → Option (Reading Node)
  | 0, _, _ => none
  | n + 1, a, tokens => do
    let (key, a, rest) ←
      if ends tokens [.value, .flowEntry, .flowListEnd] then some (.null, a, tokens.drop 1)
      else node false false n a tokens
    let (value, a, rest) ← flowValue [.flowEntry, .flowListEnd] n a rest
    some (.ofNodes [key, value], a, rest)

/-- The keys and values of a flow map in turn. -/
def flowEntries (first : Bool) : Nat → List Node → Anchors → List Token → Option (Reading (List Node))
  | 0, _, _, _ => none
  | _ + 1, read, a, .flowMapEnd :: rest => some (read.reverse, a, rest)
  | n + 1, read, a, tokens => do
    let tokens ← if first then some tokens else match tokens with
      | .flowEntry :: rest => some rest
      | _ => none
    match tokens with
    | .flowMapEnd :: rest => some (read.reverse, a, rest)
    | .key :: rest => do
      let (key, a, rest) ← nodeUnless [.value, .flowEntry, .flowMapEnd] false false n a rest
      let (value, a, rest) ← flowValue [.flowEntry, .flowMapEnd] n a rest
      flowEntries false n (value :: key :: read) a rest
    | .value :: rest => do
      let (value, a, rest) ← flowValue [.flowEntry, .flowMapEnd] n a (.value :: rest)
      flowEntries false n (value :: .null :: read) a rest
    | tokens => do
      let (key, a, rest) ← node false false n a tokens
      flowEntries false n (.null :: key :: read) a rest

/-- The value of a key in a flow collection. -/
def flowValue (followers : List Token) : Nat → Anchors → List Token → Option (Reading Node)
  | 0, _, _ => none
  | n + 1, a, .value :: rest => nodeUnless followers false false n a rest
  | _ + 1, a, rest => some (.null, a, rest)

end

/-- The content of a document behind its start, and the tokens behind it. -/
def content (a : Anchors) (tokens : List Token) : Option (Reading Node) :=
  if tokens.isEmpty || ends tokens [.directive, .documentStart, .documentEnd] then some (.null, a, tokens)
  else node true false (4 * tokens.length + 4) a tokens

/-- A document with its start. Only the first one may go without. -/
def document (first : Bool) (a : Anchors) (tokens : List Token) : Option (Reading Node) :=
  if first && !ends tokens [.directive, .documentStart] then node true false (4 * tokens.length + 4) a tokens
  else match tokens.dropWhile (· == .directive) with
    | .documentStart :: rest => content a rest
    | _ => none

/-- The documents in a row of tokens. -/
def documents : Nat → Bool → Nat → List Token → Option (List Node)
  | 0, _, _, _ => none
  | n + 1, first, count, tokens =>
    match if first then tokens else tokens.dropWhile (· == .documentEnd) with
    | [] => some []
    | tokens => do
      let (node, a, rest) ← document first ⟨count, [], []⟩ tokens
      let rest := if rest.head? == some .documentEnd then rest.drop 1 else rest
      let more ← documents n false a.count rest
      return node :: more

/-- The documents of a text; nothing if it is malformed. -/
def read? (text : String) : Option (List Node) := do
  let tokens ← Token.scan? text
  documents (tokens.length + 1) true 0 tokens

end RecordServer.Yaml
