import MemoPeg.Text.Quoted
import MemoPeg.Tree.Basic

/-!
A tree as an s-expression:

    "x"                  an untagged leaf
    (tag "x")            a tagged leaf
    (child child)        an untagged node
    (tag child child)    a tagged node

Tags are written raw and texts are quoted. Whether a tree is omitted does not show.
-/

namespace MemoPeg

namespace Tree

mutual
def printed (text : Text) : Tree → String
  | ⟨start, stop, children, tag, _⟩ =>
    match tag, children with
    | none, [] => Text.quoted (text.slice start stop)
    | some tag, [] => "(" ++ tag ++ " " ++ Text.quoted (text.slice start stop) ++ ")"
    | none, children => "(" ++ " ".intercalate (printedAll text children) ++ ")"
    | some tag, children => "(" ++ " ".intercalate (tag :: printedAll text children) ++ ")"

def printedAll (text : Text) : List Tree → List String
  | [] => []
  | t :: ts => printed text t :: printedAll text ts
end

end Tree

end MemoPeg
