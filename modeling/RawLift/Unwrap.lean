import RawLift.Inlines
import RawLift.Markup
import RawLift.Options
import RawLift.Document

/-!
Unwrapping paragraphs. A paragraph that starts with `<`, or that is a single image, becomes a raw
block; one that cannot be written as markup stays as it is. Blocks are reached through block
quotes, divisions and figures, and nothing else in the tree is touched.
-/

namespace RawLift

/-! ### One paragraph -/

namespace Node

/-- The `img` tag of an image; only text that can be flattened serves as its `alt`. -/
def imageMarkup? : Node → Option Text
  | .image attributes alt url title _ _ =>
    some (Markup.selfClosing "img" (
      Markup.unlessEmpty "src" url ++
      Markup.unlessEmpty "alt" ((Inlines.flatten? alt).getD []) ++
      Markup.unlessEmpty "title" title ++
      Attributes.markupOption attributes))
  | _ => none

end Node

namespace Inlines

def firstImage? (inlines : List Node) : Option Text := inlines.head?.bind Node.imageMarkup?

/-- The lead and one image become the image alone; otherwise all the inlines are flattened. -/
def angleMarkup? (requireSpace : Bool) (inlines : List Node) : Option Text :=
  match (afterLead? requireSpace inlines).filter isSingleImage with
  | some rest => firstImage? rest
  | none => flatten? inlines

end Inlines

namespace Unwrap

inductive Rule where
  | angle
  | image
  deriving DecidableEq

structure Replacement where
  rule : Rule
  markup : Text
  deriving DecidableEq

namespace Options

/-- The rule that a paragraph with this content falls under. A paragraph that the angle rule claims
is not looked at by the image rule, even if it stays. -/
def rule? (o : Options) (content : List Node) : Option Rule :=
  if o.angle && Inlines.hasAngleLead o.requireSpace content then some .angle
  else if o.images && Inlines.isSingleImage content then some .image
  else none

def replacement? (o : Options) (content : List Node) : Option Replacement :=
  match o.rule? content with
  | some .angle => (Inlines.angleMarkup? o.requireSpace content).map (⟨.angle, ·⟩)
  | some .image => (Inlines.firstImage? content).map (⟨.image, ·⟩)
  | none => none

def replacementOf? (o : Options) : Node → Option Replacement
  | .paragraph _ content _ => o.replacement? content
  | _ => none

/-- A leaf of the block tree after unwrapping. -/
def leaf (o : Options) (n : Node) : Node :=
  match o.replacementOf? n with
  | some r => .rawBlock o.format.name r.markup
  | none => n

end Options

/-- How many paragraphs each rule has replaced. -/
structure Tally where
  angle : Nat := 0
  image : Nat := 0
  deriving DecidableEq

instance : Add Tally := ⟨fun s t => ⟨s.angle + t.angle, s.image + t.image⟩⟩

def Tally.ofRule : Rule → Tally
  | .angle => ⟨1, 0⟩
  | .image => ⟨0, 1⟩

end Unwrap

/-! ### The block tree -/

namespace Node

mutual
/-- Applies a function to each block that is no container, at all depths. -/
def mapLeaves (f : Node → Node) : Node → Node
  | .blockQuote children order => .blockQuote (mapLeavesAll f children) order
  | .div attributes children order => .div attributes (mapLeavesAll f children) order
  | .figure attributes caption children order =>
    .figure attributes caption (mapLeavesAll f children) order
  | n => f n

def mapLeavesAll (f : Node → Node) : List Node → List Node
  | [] => []
  | n :: ns => mapLeaves f n :: mapLeavesAll f ns
end

mutual
/-- The blocks that are no containers, in order. -/
def leaves : Node → List Node
  | .blockQuote children _ => leavesAll children
  | .div _ children _ => leavesAll children
  | .figure _ _ children _ => leavesAll children
  | n => [n]

def leavesAll : List Node → List Node
  | [] => []
  | n :: ns => leaves n ++ leavesAll ns
end

theorem mapLeavesAll_eq_map (f : Node → Node) (ns : List Node) :
    mapLeavesAll f ns = ns.map (mapLeaves f) := by
  induction ns with
  | nil => rfl
  | cons n ns ih => simp [mapLeavesAll, ih]

theorem leavesAll_eq_flatMap (ns : List Node) : leavesAll ns = ns.flatMap leaves := by
  induction ns with
  | nil => rfl
  | cons n ns ih => simp [leavesAll, ih]

end Node

namespace Unwrap

def block (o : Options) (n : Node) : Node := n.mapLeaves o.leaf

def blocks (o : Options) (ns : List Node) : List Node := Node.mapLeavesAll o.leaf ns

def document (o : Options) (d : Document) : Document := { d with blocks := d.blocks.map (blocks o) }

def replacements (o : Options) (ns : List Node) : List Replacement :=
  (Node.leavesAll ns).filterMap o.replacementOf?

def tally (o : Options) (ns : List Node) : Tally where
  angle := (replacements o ns).countP fun r => r.rule = .angle
  image := (replacements o ns).countP fun r => r.rule = .image

def documentTally (o : Options) (d : Document) : Tally := tally o (d.blocks.getD [])

/-- A block's identity survives unless it is a leaf that is replaced: containers are changed in
place. -/
def keeps (o : Options) (n : Node) : Bool := n.isContainer || (o.replacementOf? n).isNone

/-- A block of a list that has been unwrapped: a container has changed in place, and any other block
is still what it was. -/
def changedInPlace (o : Options) (n : Node) : Node := if n.isContainer then block o n else n

/-- The given blocks once they have been unwrapped. -/
def inPlace (o : Options) (ns : List Node) : List Node := ns.map (changedInPlace o)

/-! ### Repeated use -/

/-- Fixed options, and what they have replaced so far. -/
structure Session where
  options : Options := {}
  tally : Tally := {}

namespace Session

def counting (s : Session) (t : Tally) : Session := { s with tally := s.tally + t }

def document (s : Session) (d : Document) : Document × Session :=
  (Unwrap.document s.options d, s.counting (documentTally s.options d))

def blocks (s : Session) (ns : List Node) : List Node × Session :=
  (Unwrap.blocks s.options ns, s.counting (Unwrap.tally s.options ns))

def block (s : Session) (n : Node) : Node × Session :=
  (Unwrap.block s.options n, s.counting (Unwrap.tally s.options [n]))

end Session

end Unwrap

end RawLift
