import RawLift.Document

/-!
Walking the block tree with some kinds of node left out. A walk visits blocks in preorder; it
removes a block of a dropped kind together with all below it, and keeps the rest as it was. Inlines
are never visited.
-/

namespace RawLift.Node

mutual
/-- The kinds visited, each before those below it. -/
def visits (drop : Kind → Bool) : Node → List Kind
  | .blockQuote children _ =>
    .blockQuote :: if drop .blockQuote then [] else visitsAll drop children
  | .div _ children _ => .div :: if drop .div then [] else visitsAll drop children
  | .figure _ _ children _ => .figure :: if drop .figure then [] else visitsAll drop children
  | n => [n.kind]

def visitsAll (drop : Kind → Bool) : List Node → List Kind
  | [] => []
  | n :: ns => visits drop n ++ visitsAll drop ns
end

mutual
/-- The block without all of a dropped kind, or nothing if it is of one itself. -/
def prune (drop : Kind → Bool) : Node → Option Node
  | .blockQuote children order =>
    if drop .blockQuote then none else some (.blockQuote (pruneAll drop children) order)
  | .div attributes children order =>
    if drop .div then none else some (.div attributes (pruneAll drop children) order)
  | .figure attributes caption children order =>
    if drop .figure then none
    else some (.figure attributes caption (pruneAll drop children) order)
  | n => if drop n.kind then none else some n

def pruneAll (drop : Kind → Bool) : List Node → List Node
  | [] => []
  | n :: ns => (prune drop n).toList ++ pruneAll drop ns
end

end RawLift.Node

namespace RawLift.Document

def visits (drop : Kind → Bool) (d : Document) : List Kind :=
  .document :: if drop .document then [] else Node.visitsAll drop (d.blocks.getD [])

def prune (drop : Kind → Bool) (d : Document) : Option Document :=
  if drop .document then none else some { d with blocks := d.blocks.map (Node.pruneAll drop) }

end RawLift.Document
