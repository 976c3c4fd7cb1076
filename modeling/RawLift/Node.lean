import RawLift.Json

/-!
The document tree. A node of a kind that the filter knows is typed; everything else is verbatim and
keeps its JSON value. Nodes also remember what their JSON form would otherwise lose: which of its
two members came first, which of two tags it had, and the source of an image read with defaults.

A tree that was put together by hand may have gaps: an object that is no node, a node without its
list of nodes, or one without its attributes. A tree read from JSON has none.
-/

namespace RawLift

inductive MemberOrder where
  | tagFirst
  | payloadFirst
  deriving DecidableEq

inductive Whitespace where
  | space
  | softBreak
  | lineBreak
  deriving DecidableEq

structure Attributes where
  identifier : Text := []
  classes : List Text := []
  pairs : List (Text × Text) := []
  deriving DecidableEq

namespace Attributes

/-- No part of the triple is worth writing out; a pair without a key is not. -/
def isEmpty (a : Attributes) : Bool :=
  a.identifier.isEmpty && a.classes.isEmpty && a.pairs.all fun p => p.1.isEmpty

end Attributes

/-- A node whose list of nodes is missing, which is not the same as an empty list. -/
inductive Hollow where
  | paragraph (tag : Text) (order : MemberOrder := .tagFirst)
  | blockQuote (order : MemberOrder := .tagFirst)
  | div (attributes : Option Attributes) (order : MemberOrder := .tagFirst)
  | figure (attributes : Option Attributes) (caption : Value) (order : MemberOrder := .tagFirst)
  | image (attributes : Option Attributes) (url title : Text) (source : Option Value := none)
      (order : MemberOrder := .tagFirst)

/-- `stray` stands for an object in the place of a node that is none, named by its type. -/
inductive Node where
  | paragraph (tag : Text) (content : List Node) (order : MemberOrder := .tagFirst)
  | rawBlock (format content : Text) (order : MemberOrder := .tagFirst)
  | blockQuote (children : List Node) (order : MemberOrder := .tagFirst)
  | div (attributes : Option Attributes) (children : List Node)
      (order : MemberOrder := .tagFirst)
  | figure (attributes : Option Attributes) (caption : Value) (children : List Node)
      (order : MemberOrder := .tagFirst)
  | text (tag content : Text) (order : MemberOrder := .tagFirst)
  | whitespace (shape : Whitespace) (order : MemberOrder := .tagFirst)
  | rawInline (format content : Text) (order : MemberOrder := .tagFirst)
  | image (attributes : Option Attributes) (alt : List Node) (url title : Text)
      (source : Option Value := none) (order : MemberOrder := .tagFirst)
  | verbatim (raw : Value)
  | hollow (shell : Hollow)
  | stray (typeName : Text)

/-- A gap that an operation on a tree cannot get past. -/
inductive Gap where
  | notANode (typeName : Text)
  | noList
  deriving DecidableEq

inductive Kind where
  | document
  | paragraph
  | rawBlock
  | blockQuote
  | div
  | figure
  | text
  | space
  | softBreak
  | lineBreak
  | rawInline
  | image
  | verbatim
  | stray
  deriving DecidableEq

namespace Hollow

def kind : Hollow → Kind
  | paragraph .. => .paragraph
  | blockQuote _ => .blockQuote
  | div .. => .div
  | figure .. => .figure
  | image .. => .image

def agrees : Hollow → Hollow → Bool
  | paragraph .., paragraph .. => true
  | blockQuote _, blockQuote _ => true
  | div a _, div b _ => a == b
  | figure a c _, figure b d _ => a == b && c.agrees d
  | image a u t _ _, image b u' t' _ _ => a == b && u == u' && t == t'
  | _, _ => false

end Hollow

namespace Node

def kind : Node → Kind
  | paragraph .. => .paragraph
  | rawBlock .. => .rawBlock
  | blockQuote .. => .blockQuote
  | div .. => .div
  | figure .. => .figure
  | text .. => .text
  | whitespace .space _ => .space
  | whitespace .softBreak _ => .softBreak
  | whitespace .lineBreak _ => .lineBreak
  | rawInline .. => .rawInline
  | image .. => .image
  | verbatim _ => .verbatim
  | hollow shell => shell.kind
  | stray _ => .stray

/-- Block quotes, divisions and figures hold blocks of their own. -/
def isContainer : Node → Bool
  | blockQuote .. | div .. | figure .. => true
  | _ => false

def isWhitespace : Node → Bool
  | whitespace .. => true
  | _ => false

def isImage : Node → Bool
  | image .. | hollow (.image ..) => true
  | _ => false

mutual
/-- Equality of what two nodes say: tags, member order and image sources aside, and data compared
as data. -/
def agrees : Node → Node → Bool
  | paragraph _ xs _, paragraph _ ys _ => agreesAll xs ys
  | rawBlock f c _, rawBlock f' c' _ => f == f' && c == c'
  | blockQuote xs _, blockQuote ys _ => agreesAll xs ys
  | div a xs _, div b ys _ => a == b && agreesAll xs ys
  | figure a c xs _, figure b d ys _ => a == b && c.agrees d && agreesAll xs ys
  | text _ s _, text _ s' _ => s == s'
  | whitespace w _, whitespace w' _ => w == w'
  | rawInline f c _, rawInline f' c' _ => f == f' && c == c'
  | image a xs u t _ _, image b ys u' t' _ _ =>
    a == b && agreesAll xs ys && u == u' && t == t'
  | verbatim v, verbatim w => v.agrees w
  | hollow h, hollow h' => h.agrees h'
  | stray s, stray s' => s == s'
  | _, _ => false

def agreesAll : List Node → List Node → Bool
  | [], [] => true
  | x :: xs, y :: ys => x.agrees y && agreesAll xs ys
  | _, _ => false
end

end Node

end RawLift
