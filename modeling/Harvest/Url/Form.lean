import Harvest.Text.Split
import Harvest.Url.Percent

/-!
# Forms

The fields of a form as text: names and values with equals signs between them, fields with
ampersands. A space becomes a plus sign, and all but letters, digits and a few marks is escaped.
-/

namespace Harvest.Url

/-- Escaped in forms. -/
def formSet : EscapeSet := fun c ↦ !(c.isAlphanum || ['*', '-', '.', '_'].contains c)

/-- A name or value as it stands in a form. -/
def formPart (text : String) : List Char :=
  text.toList.flatMap fun c ↦ if c = ' ' then ['+'] else escapeChar formSet c

/-- The fields of a form as text. -/
def formChars (fields : List (String × String)) : List Char :=
  Text.joinWith ['&'] (fields.map fun (name, value) ↦ formPart name ++ '=' :: formPart value)

end Harvest.Url
