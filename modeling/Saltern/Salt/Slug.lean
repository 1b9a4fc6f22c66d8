import Saltern.Text.Basic

/-!
# Slugs

A name cut down to what may stand in a state id.
-/

namespace Saltern

/-- The runs of ASCII letters and digits of a text, joined by underscores. -/
def slug (t : Text) : Text :=
  match Text.runs Char.isAlphanum t with
  | [] => "item"
  | words => Text.joinWith ['_'] words

end Saltern
