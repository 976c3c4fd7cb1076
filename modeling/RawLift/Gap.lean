import RawLift.Prune
import RawLift.Unwrap

/-!
Walks over trees with gaps. A walk stops at the first gap that it comes to; what it has changed and
counted before stays changed and counted. Where there is no gap it never stops.
-/

namespace RawLift

/-! ### What cannot be passed -/

namespace Node

/-- Only a node can be visited, and a container is entered through its list. -/
def gap? : Node → Option Gap
  | .stray typeName => some (.notANode typeName)
  | .hollow (.blockQuote _) | .hollow (.div ..) | .hollow (.figure ..) => some .noList
  | _ => none

/-- An image is written from the list of its alternative text. -/
def altGap? : Node → Option Gap
  | .hollow (.image ..) => some .noList
  | _ => none

end Node

namespace Inlines

def imageGap? (inlines : List Node) : Option Gap := inlines.head?.bind Node.altGap?

def angleGap? (requireSpace : Bool) (inlines : List Node) : Option Gap :=
  ((afterLead? requireSpace inlines).filter isSingleImage).bind imageGap?

end Inlines

namespace Unwrap

/-- What stops unwrapping at a leaf of the block tree. -/
def Options.gap? (o : Options) : Node → Option Gap
  | .paragraph _ content _ =>
    match o.rule? content with
    | some .angle => Inlines.angleGap? o.requireSpace content
    | some .image => Inlines.imageGap? content
    | none => none
  | n => n.gap?

/-- The first gap that unwrapping comes to. -/
def gap? (o : Options) (ns : List Node) : Option Gap := (Node.leavesAll ns).findSome? o.gap?

/-- The leaves before the first gap. -/
def reached (o : Options) (ns : List Node) : List Node :=
  (Node.leavesAll ns).takeWhile fun n => (o.gap? n).isNone

end Unwrap

namespace Node

mutual
/-- The first gap that a walk without the dropped kinds comes to. -/
def pruneGap? (drop : Kind → Bool) : Node → Option Gap
  | .blockQuote children _ => if drop .blockQuote then none else pruneGapAll? drop children
  | .div _ children _ => if drop .div then none else pruneGapAll? drop children
  | .figure _ _ children _ => if drop .figure then none else pruneGapAll? drop children
  | .stray typeName => some (.notANode typeName)
  | n => if drop n.kind then none else n.gap?

def pruneGapAll? (drop : Kind → Bool) : List Node → Option Gap
  | [] => none
  | n :: ns => (pruneGap? drop n).or (pruneGapAll? drop ns)
end

/-! ### What a stop leaves behind -/

mutual
/-- Blocks of which a walk has stopped in one: each before it has changed, and in it what comes
before the gap. -/
def haltedAll (stops : Node → Bool) (change : Node → Node) : List Node → List Node
  | [] => []
  | n :: ns =>
    if stops n then halted stops change n :: ns else change n :: haltedAll stops change ns

def halted (stops : Node → Bool) (change : Node → Node) : Node → Node
  | .blockQuote children order => .blockQuote (haltedAll stops change children) order
  | .div attributes children order => .div attributes (haltedAll stops change children) order
  | .figure attributes caption children order =>
    .figure attributes caption (haltedAll stops change children) order
  | n => n
end

end Node

namespace Unwrap

/-- A document in which unwrapping has stopped. -/
def halted (o : Options) (d : Document) : Document :=
  let stopped := Node.haltedAll (fun n => (gap? o [n]).isSome) (changedInPlace o)
  { d with blocks := d.blocks.map stopped }

namespace Session

/-- The session after a walk that has come as far as it could. -/
def through (s : Session) (ns : List Node) : Session :=
  s.counting (Unwrap.tally s.options (reached s.options ns))

/-- The gap if there is one, and the document and the session afterwards. -/
def tryDocument (s : Session) (d : Document) : Option Gap × Document × Session :=
  match gap? s.options (d.blocks.getD []) with
  | none => (none, s.document d)
  | some gap => (some gap, halted s.options d, s.through (d.blocks.getD []))

def tryBlocks (s : Session) (ns : List Node) : Except Gap (List Node) × Session :=
  match gap? s.options ns with
  | none => (.ok (s.blocks ns).1, (s.blocks ns).2)
  | some gap => (.error gap, s.through ns)

def tryBlock (s : Session) (n : Node) : Except Gap Node × Session :=
  match gap? s.options [n] with
  | none => (.ok (s.block n).1, (s.block n).2)
  | some gap => (.error gap, s.through [n])

theorem tryDocument_of_gap?_eq_none {s : Session} {d : Document}
    (h : gap? s.options (d.blocks.getD []) = none) : s.tryDocument d = (none, s.document d) := by
  simp [tryDocument, h]

theorem tryBlocks_of_gap?_eq_none {s : Session} {ns : List Node} (h : gap? s.options ns = none) :
    s.tryBlocks ns = (.ok (s.blocks ns).1, (s.blocks ns).2) := by
  simp [tryBlocks, h]

end Session

end Unwrap

namespace Document

def pruneGap? (drop : Kind → Bool) (d : Document) : Option Gap :=
  if drop .document then none else Node.pruneGapAll? drop (d.blocks.getD [])

/-- A document in which a walk without the dropped kinds has stopped. -/
def pruneHalted (drop : Kind → Bool) (d : Document) : Document :=
  let stopped :=
    Node.haltedAll (fun n => (n.pruneGap? drop).isSome) (fun n => (n.prune drop).getD n)
  { d with blocks := d.blocks.map stopped }

end Document

end RawLift
