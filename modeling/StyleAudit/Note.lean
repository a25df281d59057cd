import StyleAudit.Json

/-! Notes on what an audit comes across, in the order it happens. A note is a value here; a
log shows it as a message with named fields. -/
namespace StyleAudit

inductive Note.Level where
  | debug | info | warn
  deriving DecidableEq, Repr

inductive Note where
  | loaded (path : String) (bytes : Nat)
  | located (marker : String) (line : Nat)
  | plainEntry (name : String) (line : Nat)
  | unclosed (marker : String) (line : Nat)
  | outlined (nodes : Nat)
  | grouped (groups : Nat)
  | repeatedGroup (name : String) (line : Nat)
  deriving DecidableEq, Repr

namespace Note

def level : Note → Level
  | .loaded _ _ => .info
  | .unclosed _ _ => .warn
  | _ => .debug

def message : Note → String
  | .loaded _ _ => "loaded source"
  | .located _ _ => "container located"
  | .plainEntry _ _ => "top-level entry is not an object literal"
  | .unclosed _ _ => "container literal is not closed"
  | .outlined _ => "container parsed"
  | .grouped _ => "extracted groups"
  | .repeatedGroup _ _ => "repeated group"

def fields : Note → List (String × Json.Value)
  | .loaded path bytes => [("path", .string path), ("bytes", .number bytes)]
  | .located marker line | .unclosed marker line =>
    [("marker", .string marker), ("line", .number line)]
  | .plainEntry name line => [("entry", .string name), ("line", .number line)]
  | .outlined nodes => [("nodes", .number nodes)]
  | .grouped groups => [("groups", .number groups)]
  | .repeatedGroup name line => [("group", .string name), ("line", .number line)]

end Note

end StyleAudit
