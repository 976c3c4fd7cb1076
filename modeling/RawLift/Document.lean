import RawLift.Node.Json

/-!
A document is a JSON object whose `blocks` and `meta` members are understood. All other members,
and a `blocks` member that is no array, are kept as they are, and the order of the names as read is
remembered. A document built in memory may list names that it lacks or lack names that it holds;
writing it follows the list first and appends the rest.
-/

namespace RawLift

def blocksKey : Text := "blocks"

def metadataKey : Text := "meta"

def versionKey : Text := "pandoc-api-version"

structure Document where
  blocks : Option (List Node) := some []
  metadata : Value := .object []
  extra : Members := []
  keyOrder : List Text := [versionKey, metadataKey, blocksKey]

namespace Document

def ofMembers (ms : Members) : Document where
  blocks := (ms.get? blocksKey).bind Node.decodeArray?
  metadata := (ms.get? metadataKey).getD (.object [])
  extra := ms.filter fun (k, v) => ¬ (k = metadataKey ∨ (k = blocksKey ∧ v.array?.isSome))
  keyOrder := ms.keys

def encodedBlocks? (d : Document) : Option Value :=
  d.blocks.map fun bs => .array (Node.encodeAll bs)

/-- What a document holds under a name that its order lists. -/
def member? (d : Document) (key : Text) : Option Value :=
  if key = metadataKey then some d.metadata
  else if key = blocksKey then d.encodedBlocks?.or (d.extra.get? key)
  else d.extra.get? key

/-- The listed members, each at its first mention. -/
def listed (d : Document) : Members :=
  d.keyOrder.foldl (fun ms key =>
    match d.member? key with
    | some v => ms.insert key v
    | none => ms) []

/-- Adds the members that are not there yet. -/
def appendNew (ms new : Members) : Members := ms ++ new.filter fun m => m.1 ∉ ms.keys

def members (d : Document) : Members :=
  let held := appendNew d.listed d.extra
  match d.encodedBlocks? with
  | some v => appendNew held [(blocksKey, v)]
  | none => held

def encode (d : Document) : Value := .object d.members

def agrees (d e : Document) : Bool :=
  (match d.blocks, e.blocks with
    | some bs, some cs => Node.agreesAll bs cs
    | none, none => true
    | _, _ => false) &&
  d.metadata.agrees e.metadata && (Value.object d.extra).agrees (.object e.extra)

end Document

end RawLift
