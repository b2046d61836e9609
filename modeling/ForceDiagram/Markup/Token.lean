/-
ForceDiagram/Markup/Token.lean

Documents of tags and text.

Design.  A document is a list of tokens, and it is written by writing them one
after the other.  Every attribute value and every text goes through `escape`,
which leaves none of the characters that tags are made of; so whatever a
document says, its tags are those of its tokens.  Only tag and attribute names
are written as they are, and these come from the one who makes the document.
-/
namespace ForceDiagram

namespace Markup

/-- A character as it stands in a text: the five that tags and references are
made of have a reference of their own. -/
def escapeChar : Char → List Char
  | '&' => "&amp;".toList
  | '<' => "&lt;".toList
  | '>' => "&gt;".toList
  | '"' => "&quot;".toList
  | '\'' => "&#39;".toList
  | c => [c]

/-- A text as it stands in a document. -/
def escape (text : List Char) : List Char := text.flatMap escapeChar

structure Attribute where
  name : String
  value : String
deriving DecidableEq, Repr

inductive Token where
  /-- The tag that begins an element. -/
  | start (tag : String) (attributes : List Attribute)
  /-- The tag that ends an element. -/
  | finish (tag : String)
  /-- The tag of an element with nothing in it. -/
  | lone (tag : String) (attributes : List Attribute)
  | text (content : String)
deriving DecidableEq, Repr

/-- An attribute with the blank before it. -/
def Attribute.written (a : Attribute) : List Char :=
  ' ' :: a.name.toList ++ '=' :: '"' :: escape a.value.toList ++ ['"']

namespace Token

/-- A token as it is written. -/
def written : Token → List Char
  | .start tag attributes => '<' :: tag.toList ++ attributes.flatMap Attribute.written ++ ['>']
  | .finish tag => '<' :: '/' :: tag.toList ++ ['>']
  | .lone tag attributes =>
    '<' :: tag.toList ++ attributes.flatMap Attribute.written ++ ['/', '>']
  | .text content => escape content.toList

end Token

/-- A document as it is written. -/
def render (tokens : List Token) : String := String.ofList (tokens.flatMap Token.written)

/-- A line break between tags. -/
def newline : Token := .text "\n"

/-- An element on a line of its own, with its content on further lines. -/
def block (tag : String) (attributes : List Attribute) (content : List Token) : List Token :=
  [.start tag attributes, newline] ++ content ++ [.finish tag, newline]

end Markup

end ForceDiagram
