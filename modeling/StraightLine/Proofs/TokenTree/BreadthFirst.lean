import StraightLine.Proofs.TokenTree.Forest

/-!
# Breadth first — nodes taken from a queue

A node is taken from the front of a queue and its children wait at the end.
`breadthFirst` lists the nodes of some trees in the order in which they are
taken: all nodes, each once (`breadthFirst_perm`). Behind the trees themselves
stand the children of all that is listed, node by node (`breadthFirst_eq`). So
the number under which a child waits is known when its parent is taken, and it
is the greater one of the two (`length_lt_of_breadthFirst`).
-/

namespace StraightLine

namespace TokenTree

variable {t x : TokenTree} {ts us front back : List TokenTree}

/-- **The nodes of some trees in the order of a queue.** -/
def breadthFirst : List TokenTree → List TokenTree
  | [] => []
  | node token children :: pending =>
    node token children :: breadthFirst (pending ++ children)
termination_by ts => (nodesOf ts).length
decreasing_by
  simp only [nodesOf_append, nodesOf_cons, descendants_node, List.length_append, List.length_cons]
  omega

@[simp] theorem breadthFirst_nil : breadthFirst [] = [] := by rw [breadthFirst]

@[simp] theorem breadthFirst_cons :
    breadthFirst (t :: ts) = t :: breadthFirst (ts ++ t.children) := by
  obtain ⟨token, children⟩ := t
  rw [breadthFirst]
  rfl

/-- The trees that wait already come first. -/
theorem breadthFirst_append (ts us : List TokenTree) :
    breadthFirst (ts ++ us) = ts ++ breadthFirst (us ++ ts.flatMap children) := by
  induction ts generalizing us with
  | nil => simp
  | cons t ts ih =>
    rw [List.cons_append, breadthFirst_cons, List.append_assoc, ih, List.flatMap_cons,
      List.append_assoc, List.cons_append]

/-- **Behind the trees themselves** stand the children of all nodes, in the
order of the nodes. -/
theorem breadthFirst_eq (ts : List TokenTree) :
    breadthFirst ts = ts ++ (breadthFirst ts).flatMap children := by
  induction ts using breadthFirst.induct with
  | case1 => simp
  | case2 token children pending ih =>
    rw [breadthFirst, List.flatMap_cons, List.cons_append, ← List.append_assoc,
      TokenTree.children, ← ih]

/-- **All nodes**, each once. -/
theorem breadthFirst_perm (ts : List TokenTree) : (breadthFirst ts).Perm (nodesOf ts) := by
  induction ts using breadthFirst.induct with
  | case1 => simp
  | case2 token children pending ih =>
    rw [nodesOf_append] at ih
    rw [breadthFirst, nodesOf_cons, descendants_node]
    exact .cons _ (ih.trans List.perm_append_comm)

/-- **Something waits** as long as a node is still to be taken, so that less has
been taken than has ever waited. -/
theorem length_lt_of_breadthFirst (h : breadthFirst ts = front ++ x :: back) :
    front.length < ts.length + (front.flatMap children).length := by
  induction front generalizing ts with
  | nil =>
    rcases ts with - | ⟨t, ts⟩
    · simp at h
    · simp
  | cons y front ih =>
    rcases ts with - | ⟨t, ts⟩
    · simp at h
    · rw [breadthFirst_cons, List.cons_append] at h
      obtain ⟨rfl, htail⟩ := List.cons.inj h
      have hlt := ih htail
      simp only [List.length_append] at hlt
      simp only [List.length_cons, List.flatMap_cons, List.length_append]
      omega

end TokenTree

end StraightLine
