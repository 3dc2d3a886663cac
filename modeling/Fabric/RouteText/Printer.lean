import Fabric.RouteText.Basic
import Fabric.RouteText.Token
/-!
# Writing routes

All tokens of a written route are set apart by one blank.
-/

namespace Fabric.RouteText

mutual

/-- The tokens of a group between its braces. -/
def inner : RouteText → List RouteToken
  | ⟨w, cs⟩ => .name w :: innerAll cs

/-- The tokens of the children of a wire: groups, and the last child without braces. -/
def innerAll : List RouteText → List RouteToken
  | [] => []
  | [c] => c.inner
  | c :: d :: ds => .openBrace :: c.inner ++ .closeBrace :: innerAll (d :: ds)

end

def tokens (t : RouteText) : List RouteToken := .openBrace :: t.inner ++ [.closeBrace]

def text (t : RouteText) : String := RouteToken.join t.tokens

/-- The tokens of several routes of one net, each in parentheses and all of them quoted. -/
def quotedTokens (ts : List RouteText) : List RouteToken :=
  .quote :: ts.flatMap (fun t => .openParen :: t.tokens ++ [.closeParen]) ++ [.quote]

/-- The `ROUTE` value of a net with the given routes, absent when it has none. -/
def routeValue? : List RouteText → Option String
  | [] => none
  | [t] => some t.text
  | ts => some (RouteToken.join (quotedTokens ts))

end Fabric.RouteText
