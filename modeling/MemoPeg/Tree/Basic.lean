/-!
Parse trees. A tree records the span it covers as two positions in the text, counted in characters,
and not the text itself: what it matched is cut out of the text when it is asked for.

What a parent keeps of a part's tree (`contribution`) is the whole rule of retention: a tagged tree is
kept itself, an untagged one passes up its own children, an omitted one adds nothing.
-/

namespace MemoPeg

/-- What is parsed, one entry a character. -/
abbrev Text := List Char

/-- The characters between two positions. -/
def Text.slice (text : Text) (start stop : Nat) : List Char := (text.drop start).take (stop - start)

/-- A label that the author of a grammar gives to a result. -/
abbrev Tag := String

/-- One match: its span, the results kept below it, its label, and whether parents leave it out. -/
structure Tree where
  start : Nat
  stop : Nat
  children : List Tree
  tag : Option Tag
  omitted : Bool
deriving Repr, Inhabited

namespace Tree

/-! ### Making trees -/

/-- A span with the given children, neither tagged nor omitted. -/
def node (start stop : Nat) (children : List Tree) : Tree := ⟨start, stop, children, none, false⟩

def leaf (start stop : Nat) : Tree := node start stop []

/-- An empty match. -/
def empty (start : Nat) : Tree := leaf start start

/-- The same match under another label, or under none. -/
def withTag (t : Tree) (tag : Option Tag) : Tree := { t with tag := tag }

/-- The same match, for parents to leave out. -/
def markOmitted (t : Tree) : Tree := { t with omitted := true }

/-- The same match without what is below it. -/
def flattened (t : Tree) : Tree := { t with children := [] }

/-! ### Reading trees -/

def length (t : Tree) : Nat := t.stop - t.start

def isEmpty (t : Tree) : Bool := t.stop == t.start

def matched (text : Text) (t : Tree) : List Char := text.slice t.start t.stop

/-- What a parent keeps of the tree. -/
def contribution (t : Tree) : List Tree :=
  if t.omitted then [] else if t.tag.isSome then [t] else t.children

/-! ### Equality

Trees are compared in span, children, label and mark. `agrees` compares a tree of one text with a tree
of another: it takes the characters they matched for their stops, so that equal matches that stand
at one position in two texts are the same whatever follows them. -/

mutual
def decEq : (a b : Tree) → Decidable (a = b)
  | ⟨start, stop, children, tag, omitted⟩, ⟨start', stop', children', tag', omitted'⟩ =>
    match decEqAll children children' with
    | isTrue h =>
      decidable_of_iff (start = start' ∧ stop = stop' ∧ tag = tag' ∧ omitted = omitted') (by simp [h])
    | isFalse h => isFalse (by simp [h])

def decEqAll : (as bs : List Tree) → Decidable (as = bs)
  | [], [] => isTrue rfl
  | [], _ :: _ => isFalse (by simp)
  | _ :: _, [] => isFalse (by simp)
  | a :: as, b :: bs =>
    match decEq a b, decEqAll as bs with
    | isTrue h, isTrue h' => isTrue (by simp [h, h'])
    | isFalse h, _ => isFalse (by simp [h])
    | _, isFalse h => isFalse (by simp [h])
end

instance : DecidableEq Tree := decEq

mutual
def agrees (text text' : Text) : Tree → Tree → Bool
  | ⟨start, stop, children, tag, omitted⟩, ⟨start', stop', children', tag', omitted'⟩ =>
    start == start' && text.slice start stop == text'.slice start' stop' && tag == tag'
      && omitted == omitted' && agreesAll text text' children children'

def agreesAll (text text' : Text) : List Tree → List Tree → Bool
  | [], [] => true
  | a :: as, b :: bs => agrees text text' a b && agreesAll text text' as bs
  | _, _ => false
end

/-! ### Small laws -/

@[simp] theorem node_start (start stop : Nat) (children : List Tree) :
    (node start stop children).start = start := rfl

@[simp] theorem node_stop (start stop : Nat) (children : List Tree) :
    (node start stop children).stop = stop := rfl

@[simp] theorem node_children (start stop : Nat) (children : List Tree) :
    (node start stop children).children = children := rfl

/-- An omitted tree adds nothing to its parent. -/
@[simp] theorem contribution_markOmitted (t : Tree) : t.markOmitted.contribution = [] := rfl

/-- A plain node is transparent: its parent takes over its children. -/
@[simp] theorem contribution_node (start stop : Nat) (children : List Tree) :
    (node start stop children).contribution = children := rfl

/-- A tagged tree that is not omitted is kept whole. -/
theorem contribution_of_tagged {t : Tree} {tag : Tag} (h : t.tag = some tag)
    (h' : t.omitted = false) : t.contribution = [t] := by
  simp [contribution, h, h']

end Tree

end MemoPeg
