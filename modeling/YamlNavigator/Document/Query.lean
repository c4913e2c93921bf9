import YamlNavigator.Document.Path

/-!
Looking up nodes by query paths.

* `Found`: a node together with its number, its place in the depth-first order of the tree;
* `Node.numbered`: the nodes of a tree with their numbers;
* `Node.inRow`, `Node.scopes`: trees that follow one another with their numbers, and the trees that
  a query looks through;
* `Node.search`, `Node.find?`: the first node at the place that a query names;
* `Node.collect`, `Node.tokens`: the tokens of a node and of all nodes below it, each once;
* `QueryResult`, `Node.queryResult`: the matches of a query, one for each document, with the tokens
  that they own;
* `Matches`, `Node.query`: what a printer is told of them;
* `Node.suggestions`, `complete`: the query paths of a tree, and those that begin with a text.
-/

namespace YamlNavigator

/-- A node of a tree with its number: the number of nodes before it in depth-first order. -/
structure Found where
  number : Nat
  node : Node
  deriving Repr, Inhabited

namespace Node

/-- The nodes of a tree in depth-first order, numbered from `first`. -/
def numberedFrom (first : Nat) (n : Node) : List Found :=
  (n.depthFirst.zipIdx first).map fun p => ⟨p.2, p.1⟩

/-- The nodes of a tree in depth-first order with their numbers. -/
def numbered (n : Node) : List Found := n.numberedFrom 0

/-- The number of nodes of a tree. -/
def count (n : Node) : Nat := n.depthFirst.length

/-- Trees that follow one another, numbered from `first` on. -/
def inRow (first : Nat) : List Node → List Found
  | [] => []
  | d :: ds => ⟨first, d⟩ :: inRow (first + d.count) ds

/-- Trees that follow one another are those of the row. -/
theorem map_node_inRow : ∀ (ds : List Node) (first : Nat), (inRow first ds).map Found.node = ds
  | [], _ => rfl
  | d :: ds, first => by rw [inRow, List.map_cons, map_node_inRow ds]

/-- A tree of a row is one of the trees. -/
theorem mem_of_mem_inRow {s : Found} {ds : List Node} {first : Nat} (h : s ∈ inRow first ds) :
    s.node ∈ ds := by
  rw [← map_node_inRow ds first]
  exact List.mem_map_of_mem h

/-- Looks for the first node at the place that a query names: at a node first, and then below its
children one after another, so the outermost match wins. The tree's own number is `first`. -/
def search (query : String) (first : Nat) (n : Node) : Option Found :=
  if n.sitsAt query then some ⟨first, n⟩
  else
    (inRow (first + 1) n.children).attach.findSome? fun c =>
      have := sizeOf_lt_of_mem_children (mem_of_mem_inRow c.2)
      search query c.1.number c.1.node
  termination_by sizeOf n

/-- The first node in depth-first order at the place that a query names, if the tree's own number is
`first`. -/
def findFrom? (first : Nat) (n : Node) (query : String) : Option Found :=
  if Query.isValid query then n.search query first else none

/-- The first node in depth-first order at the place that a query names. -/
def find? (n : Node) (query : String) : Option Found := n.findFrom? 0 query

/-- Adds a token unless one of the same index is there. -/
def addToken (ts : List Token) (t : Token) : List Token :=
  if ts.any fun u => u.index == t.index then ts else ts ++ [t]

/-- Adds the tokens of a node to those collected so far: those of its properties, the one that
defines it, and those of its children one after another. -/
def collect (ts : List Token) (n : Node) : List Token :=
  let ts := n.info.properties.foldl addToken ts
  let ts := n.token.elim ts (addToken ts)
  n.children.attach.foldl
    (fun ts c =>
      have := sizeOf_lt_of_mem_children c.2
      collect ts c.1)
    ts
  termination_by sizeOf n

/-- The tokens that a node and the nodes below it own, in the order of first occurrence; of tokens
with one index the first is kept. -/
def tokens (n : Node) : List Token := n.collect []

/-- The trees that a query looks through, with their numbers: the documents of a stream, or the one
tree. -/
def scopes (n : Node) : List Found :=
  match n with
  | documentSet _ documents => inRow 1 documents
  | n => [⟨0, n⟩]

end Node

/-- Gives an index an entry, unless it has one. -/
def setDefault {α : Type} (entries : List (Int × α)) (index : Int) (a : α) : List (Int × α) :=
  if entries.any fun e => e.1 == index then entries else entries ++ [(index, a)]

/-- The matches of a query in document order, the tokens that they own, each under its index, and
the match that each of these tokens belongs to. -/
structure QueryResult where
  path : String
  nodes : List Found := []
  tokens : List (Int × Token) := []
  owners : List (Int × Found) := []
  deriving Repr, Inhabited

/-- Adds a match with its tokens. A token that another match owns stays with that one. -/
def QueryResult.add (r : QueryResult) (f : Found) : QueryResult :=
  f.node.tokens.foldl
    (fun r t =>
      { r with
        tokens := setDefault r.tokens t.index t
        owners := setDefault r.owners t.index f })
    { r with nodes := r.nodes ++ [f] }

/-- Runs a query: in each document the first node at the place that it names is a match. -/
def Node.queryResult (n : Node) (path : String) : QueryResult :=
  if Query.isValid path then
    n.scopes.foldl
      (fun r s =>
        match s.node.findFrom? s.number path with
        | some f => r.add f
        | none => r)
      { path }
  else { path }

/-- What a printer is told of a query: the matches in document order, the indices of the tokens that
are highlighted, and the match that such a token belongs to. -/
structure Matches where
  path : String
  nodes : List Found := []
  tokens : List Int := []
  owners : List (Int × Found) := []
  deriving Repr, Inhabited

namespace Matches

/-- Is a token highlighted? -/
def highlights (m : Matches) (t : Token) : Bool := m.tokens.contains t.index

/-- The node to which a token belongs. -/
def owner? (m : Matches) (t : Token) : Option Found := m.owners.lookup t.index

end Matches

/-- What a printer is told of the answer to a query. -/
def QueryResult.toMatches (r : QueryResult) : Matches where
  path := r.path
  nodes := r.nodes
  tokens := r.tokens.map Prod.fst
  owners := r.owners

/-- What a printer is told of a query that is run. -/
def Node.query (n : Node) (path : String) : Matches := (n.queryResult path).toMatches

/-- A list without the items that equal the item after them. -/
def dropRepeats : List String → List String
  | [] => []
  | [s] => [s]
  | s :: t :: ss => if s = t then dropRepeats (t :: ss) else s :: dropRepeats (t :: ss)

/-- The query paths of all nodes of a tree, in rising order and each once. -/
def Node.suggestions (n : Node) : List String :=
  let paths := (n.depthFirst.map Node.queryPath).filter (· != "")
  dropRepeats (paths.mergeSort fun p q => p ≤ q)

/-- The suggestions that begin with a text. -/
def complete (suggestions : List String) (start : String) : List String :=
  suggestions.filter fun s => start.toList.isPrefixOf s.toList

end YamlNavigator
