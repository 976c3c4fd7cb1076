import RawLift.Proofs.Unwrap.Visit

/-!
One session for many calls. Nothing of the earlier calls shows in what a later one gives back, and
the counts grow with each call by the paragraphs that it has replaced.
-/

namespace RawLift

namespace Node

def isText : Node → Bool
  | text .. => true
  | _ => false

/-- A paragraph that began with such an inline has become a raw block. -/
def raised (first : Node → Bool) : Node × Node → Bool
  | (paragraph _ content _, rawBlock ..) => (content.head?.map first).getD false
  | _ => false

end Node

namespace Unwrap

open Node

/-! ### Replaced paragraphs -/

/-- How many paragraphs that began with such an inline have become raw blocks, at all depths, by the
blocks as they were and as they are. -/
def raisedBetween (first : Node → Bool) (before after : List Node) : Nat :=
  ((leavesAll before).zip (leavesAll after)).countP (raised first)

theorem Options.first_of_replacement? {o : Options} {content : List Node} {r : Replacement}
    (replaced : o.replacement? content = some r) :
    (content.head?.map isText).getD false = decide (r.rule = .angle) ∧
      (content.head?.map isImage).getD false = decide (r.rule = .image) := by
  rcases replacement?_cases replaced with ⟨angle, rule, -⟩ | ⟨image, -, written⟩
  · obtain ⟨tag, s, order, rest, rfl, -⟩ := Inlines.hasAngleLead_iff.mp (rule?_eq_angle.mp rule).2
    rw [angle]
    exact ⟨rfl, rfl⟩
  · obtain ⟨n, first, written⟩ := Option.bind_eq_some_iff.mp written
    rw [first, image]
    cases n with
    | image => exact ⟨rfl, rfl⟩
    | _ => cases written

/-- Whether a paragraph is raised is for its first inline what it is for the rule that raises it. -/
theorem Options.raised_leaf (o : Options) (n : Node) :
    raised isText (n, o.leaf n) =
        ((o.replacementOf? n).map fun r => decide (r.rule = .angle)).getD false ∧
      raised isImage (n, o.leaf n) =
        ((o.replacementOf? n).map fun r => decide (r.rule = .image)).getD false := by
  cases n with
  | paragraph tag content order =>
    rw [leaf, replacementOf?]
    cases replaced : o.replacement? content with
    | none => exact ⟨rfl, rfl⟩
    | some r => exact first_of_replacement? replaced
  | _ => exact ⟨rfl, rfl⟩

/-- What a walk counts is what can be told from the blocks before and after it. -/
theorem tally_eq_raisedBetween (o : Options) (ns : List Node) : tally o ns =
    ⟨raisedBetween isText ns (blocks o ns), raisedBetween isImage ns (blocks o ns)⟩ := by
  have pairs : (leavesAll ns).zip (leavesAll (blocks o ns)) =
      (leavesAll ns).map fun n => (n, o.leaf n) := by
    rw [leavesAll_blocks, ← List.zip_map', List.map_id']
  rw [raisedBetween, raisedBetween, tally, replacements, pairs]
  simp only [List.countP_map, List.countP_filterMap, Function.comp_def, (o.raised_leaf _).1,
    (o.raised_leaf _).2]

/-- A session has counted on, by the paragraphs that have become raw blocks: one count is for those
that began with text, the other for those that began with an image. -/
structure Session.CountsOn (s s' : Session) (before after : List Node) : Prop where
  options : s'.options = s.options
  angle : s'.tally.angle = s.tally.angle + raisedBetween isText before after
  image : s'.tally.image = s.tally.image + raisedBetween isImage before after

theorem Session.countsOn_counting (s : Session) (ns : List Node) :
    s.CountsOn (s.counting (Unwrap.tally s.options ns)) ns (Unwrap.blocks s.options ns) where
  options := rfl
  angle := by rw [angle_counting, tally_eq_raisedBetween]
  image := by rw [image_counting, tally_eq_raisedBetween]

/-! ### Calls -/

/-- What a session can be given to unwrap, and what it gives back. -/
inductive Piece where
  | document (d : Document)
  | blocks (ns : List Node)
  | block (n : Node)

namespace Piece

def trees : Piece → List Node
  | document d => d.blocks.getD []
  | blocks ns => ns
  | block n => [n]

def unwrapped (o : Options) : Piece → Piece
  | document d => document (Unwrap.document o d)
  | blocks ns => blocks (Unwrap.blocks o ns)
  | block n => block (Unwrap.block o n)

theorem trees_unwrapped (o : Options) (p : Piece) :
    (p.unwrapped o).trees = Unwrap.blocks o p.trees := by
  cases p with
  | document d =>
    obtain ⟨_ | ns, metadata, extra, keyOrder⟩ := d <;> rfl
  | _ => rfl

end Piece

namespace Session

def visitPiece : Piece → Step Session Piece
  | .document d => return .document (← visitDocument d)
  | .blocks ns => return .blocks (← visitAll ns)
  | .block n => return .block (← visit n)

def call (s : Session) (p : Piece) : Except Gap Piece × Session := Step.run s (visitPiece p)

/-- The session after these calls. -/
def after (s : Session) (calls : List Piece) : Session := calls.foldl (fun s p => (s.call p).2) s

theorem call_eq (s : Session) (p : Piece) : s.call p =
    match gap? s.options p.trees with
    | none => (.ok (p.unwrapped s.options), s.counting (Unwrap.tally s.options p.trees))
    | some gap => (.error gap, s.through p.trees) := by
  rw [call]
  cases p with
  | document d =>
    rw [visitPiece, Step.run_map, run_visitDocument, tryDocument, Piece.trees]
    cases gap? s.options (d.blocks.getD []) <;> rfl
  | blocks ns =>
    rw [visitPiece, Step.run_map, run_visitAll, tryBlocks, Piece.trees]
    cases gap? s.options ns <;> rfl
  | block n =>
    rw [visitPiece, Step.run_map, run_visit, tryBlock, Piece.trees]
    cases gap? s.options [n] <;> rfl

theorem call_of_whole {s : Session} {p : Piece} (whole : gap? s.options p.trees = none) :
    s.call p = (.ok (p.unwrapped s.options), s.counting (Unwrap.tally s.options p.trees)) := by
  rw [call_eq, whole]

theorem call_of_gap {s : Session} {p : Piece} {gap : Gap}
    (stops : gap? s.options p.trees = some gap) : s.call p = (.error gap, s.through p.trees) := by
  rw [call_eq, stops]

theorem options_call (s : Session) (p : Piece) : (s.call p).2.options = s.options := by
  rw [call_eq]
  split <;> rfl

theorem options_after (s : Session) (calls : List Piece) : (s.after calls).options = s.options := by
  induction calls generalizing s with
  | nil => rfl
  | cons p calls ih => rw [after, List.foldl_cons, ← after, ih, options_call]

theorem call_fst_eq {s s' : Session} (same : s.options = s'.options) (p : Piece) :
    (s.call p).1 = (s'.call p).1 := by
  rw [call_eq, call_eq, same]
  split <;> rfl

/-- Whatever a session has been asked before, it gives back what a fresh one gives back, and counts
on by the paragraphs that this call has raised, for the rules by their first inlines. A call that
a gap stops counts as one that asks for no more than it has come to, and a document without blocks
counts for nothing. -/
theorem call_after (o : Options) (earlier : List Piece) (p : Piece) :
    let fresh : Session := { options := o }
    let s := fresh.after earlier
    (s.call p).1 = (fresh.call p).1 ∧
      ((gap? o p.trees = none ∧ ∃ done s', s.call p = (.ok done, s') ∧
          (leavesAll done.trees).length = (leavesAll p.trees).length ∧
          s.CountsOn s' p.trees done.trees) ∨
        ∃ gap done s', gap? o p.trees = some gap ∧ s.call p = (.error gap, s') ∧
          s.call (.blocks (reached o p.trees)) = (.ok done, s') ∧
          s.CountsOn s' (reached o p.trees) done.trees) ∧
      ∀ metadata extra keyOrder, s.call (.document ⟨none, metadata, extra, keyOrder⟩) =
        (.ok (.document ⟨none, metadata, extra, keyOrder⟩), s) := by
  intro fresh s
  have options : s.options = o := fresh.options_after earlier
  refine ⟨call_fst_eq options p, ?_, ?_⟩
  · rw [← options]
    cases walk : gap? s.options p.trees with
    | none =>
      refine .inl ⟨rfl, _, _, call_of_whole walk, ?_, ?_⟩
      · rw [Piece.trees_unwrapped, leavesAll_blocks, List.length_map]
      · rw [Piece.trees_unwrapped]
        exact s.countsOn_counting p.trees
    | some gap =>
      -- What it has come to has no gap of its own, so a call for just that is the other case.
      have whole : gap? s.options (reached s.options p.trees) = none := gap?_reached _ _
      exact .inr ⟨gap, _, _, rfl, call_of_gap walk, call_of_whole whole, s.countsOn_counting _⟩
  · intro metadata extra keyOrder
    rw [call_eq]
    rfl

/-- A tag, and an image alone. -/
def tagAndPicture : List Node :=
  [.paragraph "Para" [.text "Str" "<hr>"], .paragraph "Para" [.image none [] "a.png" []]]

/-- The same in a quote, then a lead that stays for what stands behind it, and one more image. -/
def quotedPictures : List Node :=
  [.blockQuote tagAndPicture, .paragraph "Para" [.text "Str" "<b", .verbatim .null],
    .paragraph "Para" [.image none [] "b.png" []]]

theorem call_after_quotedPictures :
    let s := Session.after {} [.blocks tagAndPicture]
    s.tally = ⟨1, 1⟩ ∧ ∃ s',
      s.call (.blocks quotedPictures) = (.ok (.blocks (Unwrap.blocks {} quotedPictures)), s') ∧
      s'.tally = ⟨2, 3⟩ := by
  intro s
  have earlier : s.tally = ⟨1, 1⟩ := rfl
  obtain ⟨-, ⟨-, done, s', called, -, counts⟩ | ⟨gap, _, _, stops, -⟩, -⟩ :=
    call_after {} [.blocks tagAndPicture] (.blocks quotedPictures)
  · have given : done = .blocks (Unwrap.blocks {} quotedPictures) :=
      (Except.ok.inj (congrArg Prod.fst called)).symm
    subst given
    have angle : s'.tally.angle = 1 + 1 := counts.angle
    have image : s'.tally.image = 1 + 2 := counts.image
    exact ⟨earlier, s', called, congrArg₂ Tally.mk angle image⟩
  · cases stops

end Session

end Unwrap

end RawLift
