import Mathlib.Data.List.Basic

/-!
# Texts around a delimiter

A text without the delimiter is cut off at the first one, or at the last.
-/

namespace TwelveC.Lib.Delimited

variable {α : Type} {c : α} {x y u v : List α}

end TwelveC.Lib.Delimited
