import Rulebook.Rule.Json
import Rulebook.Store.Basic

/-!
# Pages and statistics as JSON
-/

namespace Rulebook

/-- A page as JSON. -/
def Page.toJson (p : Page) : Json :=
  .object [("rules", .array (p.rules.map Rule.toJson)),
    ("total", .integer p.total), ("page", .integer p.number),
    ("limit", .integer p.limit), ("pages", .integer p.pages)]

/-- Statistics as JSON. -/
def Statistics.toJson (s : Statistics) : Json :=
  .object [("rules_count", .integer s.rules),
    ("combined_rules", .integer s.combined),
    ("total_fields", .integer s.fields),
    ("avg_fields_per_rule", .ofBinary64 s.fieldsPerRule)]

end Rulebook
