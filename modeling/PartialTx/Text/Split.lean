import PartialTx.Text.Basic

/-! Splitting a text at every occurrence of a separator. -/

namespace PartialTx.Text

/-- The pieces between separators; there is always one more than there are separators. -/
def split (separator : CodePoint) : Text → List Text
  | [] => [[]]
  | p :: rest =>
    if p = separator then [] :: split separator rest
    else
      match split separator rest with
      | [] => [[p]]
      | piece :: pieces => (p :: piece) :: pieces

end PartialTx.Text
