import Marginalia.Text.Basic

/-! # Texts in columns -/

namespace Marginalia.Text

/-- The text at the right of a column at least `width` characters wide. -/
def alignRight (width : Nat) (t : Text) : Text := List.replicate (width - t.length) ' ' ++ t

/-- The text at the left of a column at least `width` characters wide. -/
def alignLeft (width : Nat) (t : Text) : Text := t ++ List.replicate (width - t.length) ' '

end Marginalia.Text
