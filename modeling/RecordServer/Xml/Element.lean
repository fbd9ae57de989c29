/-!
# Elements

An `Element` is an element of a document with everything in it. Its text is what stands directly within it;
`Element.content` adds the text of the elements within, element by element.

Elements within an element are found by their `Address`, the places of the children on the way down. `descendants`
lists them in document order.
-/

namespace RecordServer.Xml

/-- An element with its attributes, its own text and its child elements. -/
inductive Element where
  | mk (name : String) (attributes : List (String × String)) (text : String) (children : List Element)
  deriving Inhabited

namespace Element

/-- The qualified name. -/
def name : Element → String
  | mk name _ _ _ => name

/-- The attributes in order. -/
def attributes : Element → List (String × String)
  | mk _ attributes _ _ => attributes

/-- The text directly within the element. -/
def text : Element → String
  | mk _ _ text _ => text

/-- The child elements in order. -/
def children : Element → List Element
  | mk _ _ _ children => children

/-- An element without anything in it. -/
def empty (name : String) (attributes : List (String × String)) : Element := mk name attributes "" []

/-- The element with more text. -/
def addText : Element → String → Element
  | mk name attributes text children, more => mk name attributes (text ++ more) children

/-- The element with one more child. -/
def addChild : Element → Element → Element
  | mk name attributes text children, child => mk name attributes text (children ++ [child])

/-- The value of an attribute; of several with one name the first. -/
def attribute? (e : Element) (name : String) : Option String := e.attributes.lookup name

mutual

/-- The text of the element, followed by the content of its children. -/
def content : Element → String
  | mk _ _ text children => text ++ contents children

/-- The contents of several elements. -/
def contents : List Element → String
  | [] => ""
  | e :: rest => content e ++ contents rest

end

end Element

/-! ## Addresses -/

/-- The places of the children on the way down, counted from zero. -/
abbrev Address := List Nat

/-- An element together with its address. -/
abbrev Located := Address × Element

/-- The children of an element with their addresses, where the first place is given. -/
def childrenFrom (address : Address) : Nat → List Element → List Located
  | _, [] => []
  | n, e :: rest => (address ++ [n], e) :: childrenFrom address (n + 1) rest

/-- The children of a located element. -/
def Located.children (l : Located) : List Located := childrenFrom l.1 0 l.2.children

mutual

/-- The element and all elements within it, in document order. -/
def subtree (address : Address) : Element → List Located
  | .mk name attributes text children =>
    (address, .mk name attributes text children) :: subtrees address 0 children

/-- The subtrees of several children, where the first place is given. -/
def subtrees (address : Address) (n : Nat) : List Element → List Located
  | [] => []
  | e :: rest => subtree (address ++ [n]) e ++ subtrees address (n + 1) rest

end

/-- All elements within a located element, in document order. -/
def Located.descendants (l : Located) : List Located := subtrees l.1 0 l.2.children

end RecordServer.Xml
