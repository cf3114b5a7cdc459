import MemoPeg.Expr.Basic
import MemoPeg.Text.Quoted

/-!
How an expression is written out for a reader:

    name   name:tag          a matcher
    (p q)                    a sequence
    (p | q)                  a choice
    p*   (p q)*   p+         a repetition, with a plus where at least one round is asked for
    left(p, q)   left(p, q):tag
    p?  &p  !p  p:tag  -p  <p>  p!
    label                    a reference

Names, tags and labels are written raw, so the text need not be readable back.
-/

namespace MemoPeg

/-- A tag after a colon, if there is one. -/
def tagSuffix : Option Tag → String
  | none => ""
  | some tag => ":" ++ tag

def Matcher.printed (m : Matcher) : String := m.name ++ tagSuffix m.tag

/-- A matcher with its fields, as one inspects it. -/
def Matcher.inspected (m : Matcher) : String :=
  let tag := match m.tag with
    | none => "None"
    | some tag => "Some(" ++ Text.quoted tag.toList ++ ")"
  "Matcher \x7b id: ParserId(" ++ toString m.id ++ "), name: " ++ Text.quoted m.name.toList
    ++ ", tag: " ++ tag ++ ", .. \x7d"

/-- The part's text with the mark of the form. -/
def Wrap.printed (body : String) : Wrap → String
  | .opt => body ++ "?"
  | .lookingAt => "&" ++ body
  | .not => "!" ++ body
  | .tagged tag => body ++ ":" ++ tag
  | .omitted => "-" ++ body
  | .token => "<" ++ body ++ ">"
  | .nonEmpty => body ++ "!"

/-- Parts between parentheses. -/
def grouped (separator : String) (parts : List String) : String :=
  "(" ++ separator.intercalate parts ++ ")"

/-- A single part stands bare, any other number in parentheses. -/
def bareOrGrouped : List String → String
  | [part] => part
  | parts => grouped " " parts

namespace Expr

mutual
def printed : Expr → String
  | .matcher m => m.printed
  | .composed _ form => printedForm form
  | .reference _ _ label => label

def printedForm : Form Expr → String
  | .seq parts => grouped " " (printedAll parts)
  | .firstOf alternatives => grouped " | " (printedAll alternatives)
  | .repeated min body => bareOrGrouped (printedAll body) ++ (if min = 0 then "*" else "+")
  | .left base continuation tag =>
    "left(" ++ printed base ++ ", " ++ printed continuation ++ ")" ++ tagSuffix tag
  | .wrap w body => w.printed (printed body)

def printedAll : List Expr → List String
  | [] => []
  | e :: es => printed e :: printedAll es
end

end Expr

end MemoPeg
