import StraightLine.Proofs.TokenTree.BreadthFirst
import StraightLine.TokenTree.Digraph

/-!
# Drawings — what is written about a tree

A drawing consists of entries: the label of a node and, directly behind it, the
edges to its children. `entries` lists them for nodes that are numbered one
after the other, with a second number that counts the children on. Level by
level they come in the order of the queue (`levelsLines_eq`), so a drawing is the
entries of `breadthFirst` between two lines (`digraph_eq`). `Draws` says what
these entries are (`draws_entries`).
-/

namespace StraightLine

namespace TokenTree

variable {t : TokenTree} {ts : List TokenTree} {id next i c : Nat}

/-! ## Entries -/

/-- What a drawing says of a node: its label, or that there is an edge from it
to a child. -/
inductive Entry where
  | label (id : Nat) (token : Option Token)
  | edge (id child : Nat)
  deriving DecidableEq, Repr

namespace Entry

/-- The text of an entry. -/
def text : Entry → Text
  | label id token => labelLine id token
  | edge id child => "  ".toList ++ Text.ofNat id ++ " -> ".toList ++ Text.ofNat child ++ ['\n']

/-- The number and the token of a label. -/
def label? : Entry → Option (Nat × Option Token)
  | label id token => some (id, token)
  | edge _ _ => none

/-- The number at the end of an edge. -/
def child? : Entry → Option Nat
  | label _ _ => none
  | edge _ child => some child

end Entry

/-- The edges from a node to so many children, which are numbered from `next`
on. -/
def edges (id next count : Nat) : List Entry := (List.range' next count).map (.edge id)

/-- The entries of some nodes that are numbered from `id` on, and their children
from `next` on. -/
def entries : List TokenTree → (id next : Nat) → List Entry
  | [], _, _ => []
  | t :: ts, id, next =>
    .label id t.token :: (edges id next t.children.length ++
      entries ts (id + 1) (next + t.children.length))

theorem edges_succ (id next count : Nat) :
    edges id next (count + 1) = .edge id next :: edges id (next + 1) count := rfl

theorem entries_append (ts us : List TokenTree) (id next : Nat) :
    entries (ts ++ us) id next = entries ts id next ++
      entries us (id + ts.length) (next + (ts.flatMap children).length) := by
  induction ts generalizing id next with
  | nil => rfl
  | cons t ts ih =>
    have hid : id + 1 + ts.length = id + (t :: ts).length := by
      rw [List.length_cons]
      omega
    have hnext : next + t.children.length + (ts.flatMap children).length =
        next + ((t :: ts).flatMap children).length := by
      rw [List.flatMap_cons, List.length_append]
      omega
    rw [List.cons_append, entries, entries, ih, hid, hnext, List.cons_append, List.append_assoc]

theorem filterMap_label?_edges (id next count : Nat) :
    (edges id next count).filterMap Entry.label? = [] := by
  simp [edges, Entry.label?]

theorem filterMap_child?_edges (id next count : Nat) :
    (edges id next count).filterMap Entry.child? = List.range' next count := by
  simp [edges, List.filterMap_map, Function.comp_def, Entry.child?]

/-- **One label for each number**, in order, with the token of its node. -/
theorem filterMap_label?_entries (ts : List TokenTree) (id next : Nat) :
    (entries ts id next).filterMap Entry.label? = ts.mapIdx fun i x => (id + i, x.token) := by
  induction ts generalizing id next with
  | nil => rfl
  | cons t ts ih =>
    have hlabel : (Entry.label id t.token).label? = some (id, t.token) := rfl
    rw [entries, List.filterMap_cons_some hlabel, List.filterMap_append, filterMap_label?_edges,
      List.nil_append, ih, List.mapIdx_cons]
    simp only [Nat.add_zero, Nat.add_right_comm, Nat.add_assoc]

/-- **One edge to each child**, in order. -/
theorem filterMap_child?_entries (ts : List TokenTree) (id next : Nat) :
    (entries ts id next).filterMap Entry.child? =
      List.range' next (ts.flatMap children).length := by
  induction ts generalizing id next with
  | nil => rfl
  | cons t ts ih =>
    rw [entries, List.filterMap_cons_none rfl, List.filterMap_append, filterMap_child?_edges, ih,
      List.flatMap_cons, List.length_append, ← List.range'_append_1]

/-- Where an edge comes from and leads to. -/
theorem exists_of_edge_mem_entries (h : .edge i c ∈ entries ts id next) :
    ∃ front x back, ts = front ++ x :: back ∧ i = id + front.length ∧
      next + (front.flatMap children).length ≤ c := by
  induction ts generalizing id next with
  | nil => cases h
  | cons t ts ih =>
    rw [entries] at h
    rcases List.mem_append.mp (List.mem_of_ne_of_mem (by simp) h) with hhere | hlater
    · obtain ⟨d, hd, heq⟩ := List.mem_map.mp hhere
      obtain ⟨rfl, rfl⟩ := Entry.edge.inj heq
      exact ⟨[], t, ts, rfl, rfl, (List.mem_range'_1.mp hd).1⟩
    · obtain ⟨front, x, back, rfl, rfl, hle⟩ := ih hlater
      refine ⟨t :: front, x, back, rfl, ?_, ?_⟩
      · rw [List.length_cons]
        omega
      · rw [List.flatMap_cons, List.length_append]
        omega

/-! ## Levels -/

theorem flatMap_text_edges (id next count : Nat) :
    (edges id next count).flatMap Entry.text = edgeLines id next count := by
  induction count generalizing next with
  | zero => rfl
  | succ count ih =>
    rw [edges_succ, List.flatMap_cons, ih, edgeLines, Entry.text]
    simp

theorem flatMap_text_entries (ts : List TokenTree) (id next : Nat) :
    (entries ts id next).flatMap Entry.text = levelLines ts id next := by
  induction ts generalizing id next with
  | nil => rfl
  | cons t ts ih =>
    obtain ⟨token, children⟩ := t
    rw [entries, List.flatMap_cons, List.flatMap_append, flatMap_text_edges, ih, levelLines,
      ← List.append_assoc]
    rfl

theorem heightOf_le_iff {n : Nat} : heightOf ts ≤ n ↔ ∀ t ∈ ts, t.height ≤ n := by
  induction ts with
  | nil => simp [heightOf]
  | cons u ts ih => rw [heightOf, Nat.max_le, ih, List.forall_mem_cons]

/-- There is one level less below some trees. -/
theorem heightOf_flatMap_children {n : Nat} (h : heightOf ts ≤ n + 1) :
    heightOf (ts.flatMap children) ≤ n := by
  rw [heightOf_le_iff] at h ⊢
  intro x hx
  obtain ⟨⟨token, children⟩, ht, hx⟩ := List.mem_flatMap.mp hx
  have hheight := h _ ht
  rw [height] at hheight
  exact heightOf_le_iff.mp (Nat.le_of_succ_le_succ hheight) x hx

/-- **Level by level** the nodes are written in the order of the queue. -/
theorem levelsLines_eq {n : Nat} (h : heightOf ts ≤ n) (id : Nat) :
    levelsLines n ts id =
      (entries (breadthFirst ts) id (id + ts.length)).flatMap Entry.text := by
  induction n generalizing ts id with
  | zero =>
    rcases ts with - | ⟨⟨token, children⟩, ts⟩
    · rw [breadthFirst_nil]
      rfl
    · rw [heightOf, height] at h
      omega
  | succ n ih =>
    have hsplit := breadthFirst_append ts []
    rw [List.append_nil, List.nil_append] at hsplit
    rw [levelsLines, ih (heightOf_flatMap_children h), ← flatMap_text_entries, hsplit,
      entries_append, List.flatMap_append]

/-- **What entries say of a tree** whose nodes are numbered by their places in a
list. -/
structure Draws (t : TokenTree) (nodes : List TokenTree) (drawn : List Entry) : Prop where
  /-- The nodes are all those of the tree, each once, -/
  perm : nodes.Perm (t :: t.descendants)
  /-- and they come breadth first: behind the root the children of all nodes,
  node by node. -/
  order : nodes = t :: nodes.flatMap children
  /-- There is one label for each number, in increasing order. -/
  labels : drawn.filterMap Entry.label? = nodes.mapIdx fun i x => (i, x.token)
  /-- There is one edge to each number but the first. -/
  edges : drawn.filterMap Entry.child? = List.range' 1 (nodes.length - 1)
  /-- Edges lead to greater numbers. -/
  ascends : ∀ i c, .edge i c ∈ drawn → i < c
  /-- The label of a node is directly followed by the edges to its children, in
  their order, and there is no other edge from it. -/
  node : ∀ front x back, nodes = front ++ x :: back → ∃ first before after,
    drawn = before ++ .label front.length x.token ::
        (TokenTree.edges front.length first x.children.length ++ after) ∧
      (nodes.drop first).take x.children.length = x.children ∧
      ∀ c, .edge front.length c ∉ before ++ after

/-- **The entries of a tree** taken from the queue draw it. -/
theorem draws_entries (t : TokenTree) :
    t.Draws (breadthFirst [t]) (entries (breadthFirst [t]) 0 1) := by
  have horder : breadthFirst [t] = t :: (breadthFirst [t]).flatMap children := breadthFirst_eq [t]
  have hcount := congrArg List.length horder
  rw [List.length_cons] at hcount
  have hdrop (k : Nat) :
      (breadthFirst [t]).drop (1 + k) = ((breadthFirst [t]).flatMap children).drop k := by
    have h := congrArg (List.drop (1 + k)) horder
    rw [Nat.add_comm, List.drop_succ_cons] at h
    rwa [Nat.add_comm]
  refine ⟨by simpa using breadthFirst_perm [t], horder, ?_, ?_, ?_, ?_⟩
  · rw [filterMap_label?_entries]
    simp only [Nat.zero_add]
  · rw [filterMap_child?_entries, hcount, Nat.add_sub_cancel]
  · intro i c hmem
    obtain ⟨front, x, back, hnodes, rfl, hle⟩ := exists_of_edge_mem_entries hmem
    have hlt := length_lt_of_breadthFirst hnodes
    rw [List.length_singleton] at hlt
    omega
  · intro front x back hnodes
    refine ⟨1 + (front.flatMap children).length, entries front 0 1,
      entries back (front.length + 1) (1 + (front.flatMap children).length + x.children.length),
      ?_, ?_, ?_⟩
    · rw [hnodes, entries_append, entries, Nat.zero_add]
    · rw [hdrop, hnodes, List.flatMap_append, List.drop_left, List.flatMap_cons, List.take_left]
    · -- the numbers of the nodes before it are less, and those behind it greater
      intro c hmem
      rcases List.mem_append.mp hmem with hbefore | hafter
      · obtain ⟨front', x', back', rfl, hi, -⟩ := exists_of_edge_mem_entries hbefore
        rw [List.length_append, List.length_cons] at hi
        omega
      · obtain ⟨front', -, -, -, hi, -⟩ := exists_of_edge_mem_entries hafter
        omega

/-- **A drawing** is the entries of the tree between its first and its last
line. -/
theorem digraph_eq (t : TokenTree) :
    t.digraph = "digraph CST \x7b\n".toList ++
      ((entries (breadthFirst [t]) 0 1).flatMap Entry.text ++ "\x7d\n".toList) := by
  have hheight : heightOf [t] ≤ t.height := by simp [heightOf]
  unfold digraph
  rw [levelsLines_eq hheight, List.append_assoc, List.length_singleton, Nat.zero_add]

end TokenTree

end StraightLine
