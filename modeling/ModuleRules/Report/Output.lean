import ModuleRules.Configuration.Loader
import ModuleRules.Json.Printer
import ModuleRules.Report.Style
import ModuleRules.Report.Summary

/-!
# Output

What a run shows, as text for a terminal, as one JSON document, or as unified
diffs. Text and diffs are shown descriptor by descriptor; errors then go to
the second channel.
-/

namespace ModuleRules

def versionText : Text := "0.1.0"

inductive Format
  | text
  | json
  | diff
  deriving DecidableEq, Repr

/-- A format by its name in small or capital letters. -/
def Format.ofName? (t : Text) : Option Format :=
  let name := t.map Char.toLower
  if name = "text".toList then some text
  else if name = "json".toList then some json
  else if name = "diff".toList then some diff
  else none

/-- Whether changed descriptors are only reported or also written. -/
inductive Mode
  | check
  | fix
  deriving DecidableEq, Repr

structure Output where
  out : Text := []
  err : Text := []
  deriving DecidableEq, Repr

instance : Append Output := ⟨fun a b => ⟨a.out ++ b.out, a.err ++ b.err⟩⟩

def Output.lines (ls : List Text) : Output := { out := Text.unlines ls }

def Output.errors (ls : List Text) : Output := { err := Text.unlines ls }

/-! ## JSON -/

def Change.toJson (c : Change) : Json :=
  .record [Json.field "rule" (.text c.rule), Json.field "message" (.text c.message)]

def Outcome.jsonFields : Outcome → List (Text × Json)
  | unchanged => [Json.field "status" (.text "unchanged")]
  | amended changes written =>
    [Json.field "status" (.text "rewritten"),
      Json.field "changes" (.array (changes.map Change.toJson)),
      Json.field "written" (.bool written)]
  | failed error =>
    [Json.field "status" (.text "failed"), Json.field "error" (.text error)]

def Report.toJson (r : Report) : Json :=
  .record ((r.id.map fun id => Json.field "module" (.text id)).toList ++
    Json.field "path" (.text r.path) :: r.outcome.jsonFields)

def Summary.toJson (s : Summary) : Json :=
  .record [Json.field "descriptors" (.nat s.descriptors), Json.field "rewritten" (.nat s.amended),
    Json.field "failed" (.nat s.failed),
    Json.field "changes_by_rule" (.record (s.changesByRule.map fun (k, n) => (k, .nat n)))]

def Mode.name : Mode → Text
  | check => "check"
  | fix => "fix"

def Problem.jsonFields : Problem → List (Text × Json)
  | unrecognized => [Json.field "kind" (.text "unrecognized")]
  | malformed k flaw =>
    [Json.field "kind" (.text "malformed"), Json.field "directive" (.text k.text),
      Json.field "reason" (.text flaw.message)]

def Warning.toJson (w : Warning) : Json :=
  .record ([Json.field "path" (.text w.source), Json.field "line" (.nat w.line),
    Json.field "content" (.text w.content)] ++ w.problem.jsonFields)

/-! ## Reporter -/

structure Reporter where
  format : Format
  mode : Mode
  verbose : Bool
  color : Bool
  reports : List Report := []
  summary : Summary := {}

namespace Reporter

def ruleWidth : Nat := 24

def changeLine (color : Bool) (c : Change) : Text :=
  "  " ++ Style.cyan.paint color c.rule ruleWidth ++ ' ' :: c.message

def showReport (p : Reporter) (r : Report) (diff : Option Text) : Output :=
  match r.outcome, p.format with
  | .failed error, .text | .failed error, .diff =>
    .errors [Style.red.paint p.color "Error" ++ ": " ++ r.path ++ ": " ++ error]
  | .unchanged, .text =>
    if p.verbose then .lines [r.label ++ ' ' :: Style.dimmed.paint p.color "unchanged"] else {}
  | .amended changes written, .text =>
    let status : Text := if written then "rewritten" else "needs rewriting"
    .lines ((Style.bold.paint p.color r.label ++ ' ' :: Style.yellow.paint p.color status) ::
      changes.map (changeLine p.color))
  | .amended _ _, .diff => { out := diff.getD [] }
  | _, _ => {}

def record (p : Reporter) (r : Report) (diff : Option Text) : Reporter × Output :=
  ({ p with reports := p.reports ++ [r], summary := p.summary.add r.outcome },
    p.showReport r diff)

def summaryLines (p : Reporter) : List Text :=
  let s := p.summary
  let verb : Text := match p.mode with
    | .check => "need rewriting"
    | .fix => "rewritten"
  let total := Text.ofNat s.amended ++ " of " ++ Text.ofNat s.descriptors ++ " descriptor(s) " ++
    verb ++ ", " ++ Text.ofNat s.totalChanges ++ " change(s)"
  let counts := s.changesByRule.map fun (rule, n) =>
    "  " ++ Text.padRight ruleWidth rule ++ ' ' :: Text.ofNat n
  let failures := if s.failed > 0 then
      [Style.red.paint p.color (Text.ofNat s.failed ++ " descriptor(s) could not be processed")]
    else []
  let hint := if p.mode = .check ∧ s.amended > 0 then
      [Style.yellow.paint p.color "Pass --fix to write the rewritten descriptors"]
    else []
  [] :: total :: counts ++ failures ++ hint

def toJson (p : Reporter) : Json :=
  .record [Json.field "version" (.text versionText), Json.field "mode" (.text p.mode.name),
    Json.field "summary" p.summary.toJson,
    Json.field "descriptors" (.array (p.reports.map Report.toJson))]

def finish (p : Reporter) : Output :=
  match p.format with
  | .json => .lines [p.toJson.pretty]
  | .text => .lines p.summaryLines
  | .diff => {}

end Reporter

/-! ## Rules -/

namespace Loaded

def rulesJson (l : Loaded) : Json :=
  .record [Json.field "version" (.text versionText), Json.field "sources" (.texts l.sources),
    Json.field "modules" (.array (l.store.sets.map fun (id, rules) =>
      .record [Json.field "module" (.text id.text),
        Json.field "rules" (.texts (rules.map Rule.text))])),
    Json.field "warnings" (.array (l.warnings.map Warning.toJson))]

def rulesLines (color : Bool) (l : Loaded) : List Text :=
  if l.sources = [] then [Style.yellow.paint color "No module-rewrite.conf found"]
  else
    let indent (t : Text) : Text := ' ' :: ' ' :: t
    let skipped := if l.warnings = [] then [] else
      [[], Style.yellow.paint color (Text.ofNat l.warnings.length ++ " line(s) skipped")]
    Style.bold.paint color "Configuration files:" :: l.sources.map indent ++ [[]] ++
      (l.store.sets.flatMap fun (id, rules) =>
        Style.green.paint color id.text :: rules.map fun r => indent r.text) ++ skipped

def showRules (format : Format) (color : Bool) (l : Loaded) : Output :=
  match format with
  | .json => .lines [l.rulesJson.pretty]
  | _ => .lines (l.rulesLines color)

end Loaded

end ModuleRules
