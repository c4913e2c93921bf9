import YamlNavigator.Document.Token

/-!
The tree of a document.

* `NodeInfo`: what every node carries: its path, its defining token, its extent in the text, its
  anchor and the tokens of its properties;
* `Node`: the nodes, each kind with what it holds;
* `Node.children`, `Node.depthFirst`: the nodes below a node, and all nodes of a tree with a node
  before its children;
* `Node.mapPaths`: the tree with every path changed;
* `Node.entryOf`, `Node.documentOf`, `Node.documentSetOf`: nodes made from their parts.
-/

namespace YamlNavigator

/-- What a node is. -/
inductive NodeKind where
  | documentSet
  | document
  | mapping
  | mappingEntry
  | sequence
  | scalar
  | reference
  deriving DecidableEq, Repr, Inhabited

/-- What every node carries: its structural path, the token that defines it, the offsets where its
text starts and stops, its anchor, and the tokens of its anchor and its tag. -/
structure NodeInfo where
  path : String
  token : Option Token := none
  start : Nat := 0
  stop : Nat := 0
  anchor : Option String := none
  properties : List Token := []
  deriving DecidableEq, Repr, Inhabited

/-- A node of the tree. An alias holds the name of the anchor that it refers to. -/
inductive Node where
  | documentSet (info : NodeInfo) (documents : List Node)
  | document (info : NodeInfo) (body : Option Node)
  | mapping (info : NodeInfo) (entries : List Node)
  | mappingEntry (info : NodeInfo) (key value : Option Node)
  | sequence (info : NodeInfo) (items : List Node)
  | scalar (info : NodeInfo) (value : Option String)
  | reference (info : NodeInfo) (name : Option String)
  deriving Repr, Inhabited

namespace Node

/-- The kind of a node. -/
def kind : Node → NodeKind
  | documentSet _ _ => .documentSet
  | document _ _ => .document
  | mapping _ _ => .mapping
  | mappingEntry _ _ _ => .mappingEntry
  | sequence _ _ => .sequence
  | scalar _ _ => .scalar
  | reference _ _ => .reference

/-- What the node carries whatever its kind. -/
def info : Node → NodeInfo
  | documentSet i _ | document i _ | mapping i _ | mappingEntry i _ _ | sequence i _ | scalar i _
  | reference i _ => i

/-- The structural path of a node. -/
def path (n : Node) : String := n.info.path

/-- The token that defines a node. -/
def token (n : Node) : Option Token := n.info.token

/-- The offset where a node's text starts. -/
def start (n : Node) : Nat := n.info.start

/-- The offset where a node's text stops. -/
def stop (n : Node) : Nat := n.info.stop

/-- The text of a scalar, or the name that an alias refers to. -/
def value? : Node → Option String
  | scalar _ v => v
  | reference _ v => v
  | _ => none

/-- The line of the defining token. -/
def line (n : Node) : Option Int := n.token.map (·.position.line)

/-- The nodes directly below a node, a key before its value. -/
def children : Node → List Node
  | documentSet _ documents => documents
  | document _ body => body.toList
  | mapping _ entries => entries
  | mappingEntry _ key value => key.toList ++ value.toList
  | sequence _ items => items
  | scalar _ _ => []
  | reference _ _ => []

/-- A node is larger than each node directly below it. -/
theorem sizeOf_lt_of_mem_children {c n : Node} (h : c ∈ n.children) : sizeOf c < sizeOf n := by
  cases n with
  | documentSet i ds => have := List.sizeOf_lt_of_mem (children.eq_1 i ds ▸ h); simp; omega
  | document i b =>
      cases b with
      | none => simp [children] at h
      | some b => simp [children] at h; subst h; simp; omega
  | mapping i es => have := List.sizeOf_lt_of_mem (children.eq_3 i es ▸ h); simp; omega
  | mappingEntry i k v =>
      cases k <;> cases v <;> simp [children] at h <;>
        (try rcases h with h | h) <;> subst_vars <;> simp <;> omega
  | sequence i xs => have := List.sizeOf_lt_of_mem (children.eq_5 i xs ▸ h); simp; omega
  | scalar i v => simp [children] at h
  | reference i v => simp [children] at h

/-- A property of all nodes follows if it passes from the children of a node to the node. -/
theorem children_induction {motive : Node → Prop}
    (step : ∀ n : Node, (∀ c ∈ n.children, motive c) → motive n) (n : Node) : motive n :=
  step n fun c h =>
    have := sizeOf_lt_of_mem_children h
    children_induction step c
  termination_by sizeOf n

/-- All nodes of a tree, each before those below it. -/
def depthFirst (n : Node) : List Node :=
  n :: n.children.attach.flatMap fun c =>
    have := sizeOf_lt_of_mem_children c.2
    depthFirst c.1
  termination_by sizeOf n

/-- The tree of a node is the node and the trees of its children. -/
theorem depthFirst_eq (n : Node) : n.depthFirst = n :: n.children.flatMap depthFirst := by
  rw [depthFirst]
  conv => rhs; rw [← List.attach_map_subtype_val n.children, List.flatMap_map]

mutual

/-- The tree with every path changed by a function. -/
def mapPaths (f : String → String) : Node → Node
  | documentSet i ds => documentSet { i with path := f i.path } (mapPathsAll f ds)
  | document i b => document { i with path := f i.path } (mapPathsOption f b)
  | mapping i es => mapping { i with path := f i.path } (mapPathsAll f es)
  | mappingEntry i k v =>
      mappingEntry { i with path := f i.path } (mapPathsOption f k) (mapPathsOption f v)
  | sequence i xs => sequence { i with path := f i.path } (mapPathsAll f xs)
  | scalar i v => scalar { i with path := f i.path } v
  | reference i v => reference { i with path := f i.path } v

/-- The trees with every path changed by a function. -/
def mapPathsAll (f : String → String) : List Node → List Node
  | [] => []
  | n :: ns => mapPaths f n :: mapPathsAll f ns

/-- The tree, if there is one, with every path changed by a function. -/
def mapPathsOption (f : String → String) : Option Node → Option Node
  | none => none
  | some n => some (mapPaths f n)

end

/-- The documents of a stream. -/
def documentSetOf (documents : List Node) : Node :=
  documentSet { path := "" } documents

/-- A document with its body. -/
def documentOf (body : Option Node) (token : Option Token) (start stop : Nat) : Node :=
  document { path := "", token, start, stop } body

/-- An entry of a mapping. It is defined by the token of its key and spans the key and the value. -/
def entryOf (path : String) (key value : Node) : Node :=
  mappingEntry { path, token := key.token, start := key.start, stop := max key.stop value.stop }
    (some key) (some value)

end Node

end YamlNavigator
