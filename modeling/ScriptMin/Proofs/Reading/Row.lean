import ScriptMin.Proofs.Token.Tiling
import ScriptMin.Proofs.Tree.Bodies

/-!
# Nodes in the order of the source

A `Row` is a list of nodes that stand one behind the other between two positions, each with its
subtree in order. The children of a node are put together from what was read between one token and
the next, so rows are joined as lists of children are, and a span that `Encloses` a row makes it the
row of one node.
-/

namespace ScriptMin

open Source

/-! ## Placed nodes -/

/-- A position between two characters of the source, or at one of its ends. -/
def Source.IsBoundary (source : List Char) (position : Nat) : Prop :=
  ∃ before after, source = before ++ after ∧ position = byteLength before

/-- The source within the span ends with the name. -/
def Source.Span.EndsWith (source : List Char) (s : Span) (name : String) : Prop :=
  ∃ before after, source = before ++ name.toList ++ after ∧ s.start ≤ byteLength before ∧
    s.stop = byteLength (before ++ name.toList)

/-- From `lo` to `hi` the spans of the nodes follow each other without overlapping. -/
def Ordered : Nat → List Node → Nat → Prop
  | lo, [], hi => lo ≤ hi
  | lo, n :: rest, hi =>
    lo ≤ n.span.start ∧ n.span.start ≤ n.span.stop ∧ Ordered n.span.stop rest hi

/-- The name of a member of an object literal that is nothing but its name. -/
def Shape.shorthand? {α : Type} : Shape α → Option String
  | .objectMember (.shorthand name) => some name
  | _ => none

/-- The span of a node lies between characters and holds its children, in their order. A target
takes the place of a shorthand from the end of the member. -/
structure Node.Placed (source : List Char) (n : Node) : Prop where
  start : IsBoundary source n.span.start
  stop : IsBoundary source n.span.stop
  children : Ordered n.span.start n.shape.children n.span.stop
  shorthand : ∀ name ∈ n.shape.shorthand?, n.span.EndsWith source name

/-- All nodes of a tree are placed. -/
def Node.Nests (source : List Char) (n : Node) : Prop :=
  ∀ m ∈ n.nodes, m.Placed source

namespace Source

variable {source : List Char} {p : Nat}

theorem IsBoundary.le (h : IsBoundary source p) : p ≤ byteLength source := by
  obtain ⟨before, after, rfl, rfl⟩ := h
  rw [byteLength_append]
  exact Nat.le_add_right ..

theorem Span.EndsWith.mono {s t : Span} {name : String} (h : s.EndsWith source name)
    (hstart : t.start ≤ s.start) (hstop : t.stop = s.stop) : t.EndsWith source name := by
  obtain ⟨before, after, hsource, hlo, hhi⟩ := h
  exact ⟨before, after, hsource, hstart.trans hlo, hstop.trans hhi⟩

theorem isBoundary_zero : IsBoundary source 0 := ⟨[], source, rfl, rfl⟩

theorem isBoundary_length : IsBoundary source (byteLength source) :=
  ⟨source, [], (List.append_nil _).symm, rfl⟩

end Source

namespace Ordered

variable {lo lo' mid hi hi' : Nat} {xs ys : List Node}

theorem le (h : Ordered lo xs hi) : lo ≤ hi := by
  induction xs generalizing lo with
  | nil => exact h
  | cons n rest ih => exact h.1.trans (h.2.1.trans (ih h.2.2))

theorem mono (h : Ordered lo xs hi) (hlo : lo' ≤ lo) (hhi : hi ≤ hi') : Ordered lo' xs hi' := by
  induction xs generalizing lo lo' with
  | nil => exact hlo.trans (Nat.le_trans h hhi)
  | cons n rest ih => exact ⟨hlo.trans h.1, h.2.1, ih h.2.2 le_rfl⟩

theorem append (hx : Ordered lo xs mid) (hy : Ordered mid ys hi) : Ordered lo (xs ++ ys) hi := by
  induction xs generalizing lo with
  | nil => exact hy.mono hx le_rfl
  | cons n rest ih => exact ⟨hx.1, hx.2.1, ih hx.2.2⟩

/-- A list that is in order has a place between any two parts of it. -/
theorem split (h : Ordered lo (xs ++ ys) hi) : ∃ mid, Ordered lo xs mid ∧ Ordered mid ys hi := by
  induction xs generalizing lo with
  | nil => exact ⟨lo, le_rfl, h⟩
  | cons n rest ih =>
    obtain ⟨mid, hrest, hys⟩ := ih h.2.2
    exact ⟨mid, ⟨h.1, h.2.1, hrest⟩, hys⟩

/-- Each of the nodes lies between the two positions. -/
theorem within (h : Ordered lo xs hi) {n : Node} (hn : n ∈ xs) :
    lo ≤ n.span.start ∧ n.span.start ≤ n.span.stop ∧ n.span.stop ≤ hi := by
  induction xs generalizing lo with
  | nil => cases hn
  | cons m rest ih =>
    obtain ⟨hlo, hm, hrest⟩ := h
    rcases List.mem_cons.1 hn with rfl | hn
    · exact ⟨hlo, hm, hrest.le⟩
    · exact ⟨hlo.trans (hm.trans (ih hrest hn).1), (ih hrest hn).2⟩

theorem pairwise (h : Ordered lo xs hi) : xs.Pairwise fun m n => m.span.stop ≤ n.span.start := by
  induction xs generalizing lo with
  | nil => exact .nil
  | cons n rest ih => exact .cons (fun m hm => (h.2.2.within hm).1) (ih h.2.2)

end Ordered

/-! ## Rows -/

/-- Between `lo` and `hi` the nodes stand one behind the other, each with its subtree in order. -/
structure Row (source : List Char) (lo : Nat) (ns : List Node) (hi : Nat) : Prop where
  ordered : Ordered lo ns hi
  nests : ∀ n ∈ ns, n.Nests source

section Nests

variable {source : List Char} {n : Node}

theorem Node.nests_iff :
    n.Nests source ↔ n.Placed source ∧ ∀ c ∈ n.shape.children, c.Nests source := by
  unfold Nests
  rw [nodes_eq, List.forall_mem_cons, List.forall_mem_flatMap]

theorem Node.Nests.placed (h : n.Nests source) : n.Placed source :=
  (nests_iff.1 h).1

/-- The children of a node are a row within its span. -/
theorem Node.Nests.row (h : n.Nests source) :
    Row source n.span.start n.shape.children n.span.stop :=
  ⟨h.placed.children, (nests_iff.1 h).2⟩

end Nests

namespace Row

variable {source : List Char} {lo lo' mid hi hi' : Nat} {n : Node} {xs ys : List Node}

theorem le (h : Row source lo xs hi) : lo ≤ hi := h.ordered.le

theorem nil (h : lo ≤ hi) : Row source lo [] hi := ⟨h, nofun⟩

theorem mono (h : Row source lo xs hi) (hlo : lo' ≤ lo) (hhi : hi ≤ hi') : Row source lo' xs hi' :=
  ⟨h.ordered.mono hlo hhi, h.nests⟩

theorem append (hx : Row source lo xs mid) (hy : Row source mid ys hi) :
    Row source lo (xs ++ ys) hi :=
  ⟨hx.ordered.append hy.ordered, List.forall_mem_append.2 ⟨hx.nests, hy.nests⟩⟩

theorem split (h : Row source lo (xs ++ ys) hi) :
    ∃ mid, Row source lo xs mid ∧ Row source mid ys hi := by
  obtain ⟨mid, hxs, hys⟩ := h.ordered.split
  obtain ⟨hx, hy⟩ := List.forall_mem_append.1 h.nests
  exact ⟨mid, ⟨hxs, hx⟩, ⟨hys, hy⟩⟩

theorem cons (hn : Row source lo [n] mid) (hx : Row source mid xs hi) :
    Row source lo (n :: xs) hi :=
  hn.append hx

theorem head (h : Row source lo (n :: xs) hi) : Row source lo [n] n.span.stop :=
  ⟨⟨h.ordered.1, h.ordered.2.1, le_rfl⟩, by simpa using h.nests n (List.mem_cons_self ..)⟩

theorem tail (h : Row source lo (n :: xs) hi) : Row source n.span.stop xs hi :=
  ⟨h.ordered.2.2, fun m hm => h.nests m (List.mem_cons_of_mem _ hm)⟩

theorem nests_one (h : Row source lo [n] hi) : n.Nests source :=
  h.nests n (List.mem_singleton_self _)

/-- The children of a node stand where the node does. -/
theorem children (h : Row source lo [n] hi) : Row source lo n.shape.children hi :=
  h.nests_one.row.mono h.ordered.1 h.ordered.2.2

/-- The elements of a sequence stand where it does. -/
theorem elements (h : Row source lo [n] hi) : Row source lo n.elements hi := by
  unfold Node.elements
  split
  case h_1 first rest hshape =>
    have hchildren := h.children
    rwa [hshape] at hchildren
  case h_2 => exact h

end Row

/-! ## Spans around rows -/

/-- The span lies between `lo` and `hi` and holds the row. -/
structure Encloses (source : List Char) (lo : Nat) (s : Span) (ns : List Node) (hi : Nat) :
    Prop where
  lo_le : lo ≤ s.start
  start : IsBoundary source s.start
  row : Row source s.start ns s.stop
  stop : IsBoundary source s.stop
  le_hi : s.stop ≤ hi

namespace Encloses

variable {source : List Char} {lo mid mid' hi : Nat} {s t : Span} {xs ms ys : List Node}

theorem le (h : Encloses source lo s xs hi) : lo ≤ hi :=
  h.lo_le.trans (h.row.le.trans h.le_hi)

theorem mono {lo' hi' : Nat} (h : Encloses source lo s xs hi) (hlo : lo' ≤ lo) (hhi : hi ≤ hi') :
    Encloses source lo' s xs hi' :=
  { h with lo_le := hlo.trans h.lo_le, le_hi := h.le_hi.trans hhi }

/-- A node takes the span that encloses its children. -/
theorem node (shape : Shape Node) (h : Encloses source lo s shape.children hi)
    (hshort : ∀ name ∈ shape.shorthand?, s.EndsWith source name) :
    Row source lo [⟨s, shape⟩] hi := by
  refine ⟨⟨h.lo_le, h.row.le, h.le_hi⟩, ?_⟩
  rw [List.forall_mem_singleton, Node.nests_iff]
  exact ⟨⟨h.start, h.stop, h.row.ordered, hshort⟩, h.row.nests⟩

/-- The span of a node encloses it. -/
theorem of_node {n : Node} (h : Row source lo [n] hi) : Encloses source lo n.span [n] hi where
  lo_le := h.ordered.1
  start := h.nests_one.placed.start
  row := ⟨⟨le_rfl, h.ordered.2.1, le_rfl⟩, h.nests⟩
  stop := h.nests_one.placed.stop
  le_hi := h.ordered.2.2

/-- What is covered from one span to a later one encloses what stands between them as well. -/
theorem cover (hs : Encloses source lo s xs mid) (hm : Row source mid ms mid')
    (ht : Encloses source mid' t ys hi) :
    Encloses source lo (s.cover t) (xs ++ ms ++ ys) hi := by
  have hst : s.stop ≤ t.start := hs.le_hi.trans (hm.le.trans ht.lo_le)
  have hcover : s.cover t = ⟨s.start, t.stop⟩ := by
    have hs := hs.row.le
    have ht := ht.row.le
    simp only [Span.cover, Span.mk.injEq]
    omega
  rw [hcover]
  have hgap : Row source s.stop ms t.start := hm.mono hs.le_hi ht.lo_le
  exact ⟨hs.lo_le, hs.start, (hs.row.append hgap).append ht.row, ht.stop, ht.le_hi⟩

/-- From one token to another, around what stands between them. -/
theorem between (hs : Encloses source lo s [] mid) (hm : Row source mid ms mid')
    (ht : Encloses source mid' t [] hi) : Encloses source lo (s.cover t) ms hi := by
  simpa using hs.cover hm ht

/-- On to the end of a node. -/
theorem upTo {n : Node} (hs : Encloses source lo s xs mid) (hn : Row source mid [n] hi) :
    Encloses source lo (s.cover n.span) (xs ++ [n]) hi := by
  simpa using hs.cover (.nil le_rfl) (of_node hn)

/-- A span that was covered up to one place is covered on to a later one. -/
theorem coverOn {u : Span} (h : Encloses source lo (s.cover t) xs mid) (hst : s.start ≤ t.start)
    (hm : Row source mid ms mid') (hu : Encloses source mid' u ys hi) :
    Encloses source lo (s.cover u) (xs ++ ms ++ ys) hi := by
  have hcover : (s.cover t).cover u = s.cover u := by
    have hstop := h.le_hi.trans (hm.le.trans hu.lo_le)
    have hle := hu.row.le
    simp only [Span.cover, Span.mk.injEq] at *
    omega
  exact hcover ▸ h.cover hm hu

end Encloses

/-- Another node can take the place of one if its children stand within the span. -/
theorem Row.reshape {source : List Char} {lo hi : Nat} {n : Node}
    (shape : Shape Node) (h : Row source lo [n] hi)
    (hrow : Row source n.span.start shape.children n.span.stop)
    (hshort : ∀ name ∈ shape.shorthand?, n.span.EndsWith source name) :
    Row source lo [⟨n.span, shape⟩] hi :=
  Encloses.node shape { Encloses.of_node h with row := hrow } hshort

theorem Source.Span.cover_self (s : Span) : s.cover s = s := by
  simp [cover]

end ScriptMin
