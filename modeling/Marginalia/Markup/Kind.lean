import Marginalia.Text.Search

/-! # Kinds of markup and their delimiters -/

namespace Marginalia

/-- What a markup token says about the text. -/
inductive Kind where
  /-- Text proposed to be added. -/
  | addition
  /-- Text proposed to be removed. -/
  | deletion
  /-- Text proposed to be exchanged for other text. -/
  | substitution
  /-- Text pointed at. -/
  | highlight
  /-- A remark. -/
  | comment
  deriving Repr, DecidableEq

namespace Kind

/-- Every kind, in the order in which openers are tried. -/
def all : List Kind := [.addition, .deletion, .substitution, .highlight, .comment]

def opener : Kind → Text
  | .addition => ['{', '+', '+']
  | .deletion => ['{', '-', '-']
  | .substitution => ['{', '~', '~']
  | .highlight => ['{', '=', '=']
  | .comment => ['{', '>', '>']

def closer : Kind → Text
  | .addition => ['+', '+', '}']
  | .deletion => ['-', '-', '}']
  | .substitution => ['~', '~', '}']
  | .highlight => ['=', '=', '}']
  | .comment => ['<', '<', '}']

/-- Every delimiter has three bytes. -/
def delimiterLength : Nat := 3

/-- Name in listings and reports. -/
def name : Kind → String
  | .addition => "addition"
  | .deletion => "deletion"
  | .substitution => "substitution"
  | .highlight => "highlight"
  | .comment => "comment"

/-- Stands between the two halves of a substitution. -/
def separator : Text := ['~', '>']

/-- Stands between the metadata and the body of a comment. -/
def metadataEnd : Text := ['@', '@']

/-- The kind whose opener the text begins with. -/
def openerAt? (t : Text) : Option Kind := all.find? fun k => t.startsWith k.opener

/-- Whether the text begins with an opener of another kind than `k`. -/
def foreignAt (k : Kind) (t : Text) : Bool := (openerAt? t).any (· ≠ k)

theorem byteLength_opener (k : Kind) : k.opener.byteLength = delimiterLength := by
  cases k <;> decide

theorem byteLength_closer (k : Kind) : k.closer.byteLength = delimiterLength := by
  cases k <;> decide

end Kind

end Marginalia
