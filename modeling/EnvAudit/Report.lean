import EnvAudit.Fault
import EnvAudit.Findings
import EnvAudit.Text.Json
import EnvAudit.Text.Quoted

/-!
# Reports

What an audit found, told to people as lines of text and to programs as a JSON document.
-/
namespace EnvAudit

structure Report where
  root : Path
  declarationFiles : List Path
  /-- How many source files there are, those that cannot be read included. -/
  sourceFiles : Nat
  usedKeys : List String
  declaredKeys : List String
  missing : List String
  unused : List String
  skipped : List Skip
  deriving DecidableEq, Repr

namespace Report

def isClean (report : Report) : Bool := report.missing.isEmpty && report.unused.isEmpty

/-! ## Lines -/

/-- The lines of a list, each behind a dash. -/
def itemLines (items : List String) : List String := items.map fun item => "  - " ++ item

def skippedLines (report : Report) : List String :=
  if report.skipped.isEmpty then []
  else ["", s!"SKIPPED ({report.skipped.length}):"] ++ itemLines (report.skipped.map Skip.message)

def missingLines (report : Report) : List String :=
  if report.missing.isEmpty then ["", "No missing keys in .env file(s)."]
  else ["", s!"MISSING KEYS ({report.missing.length}):"] ++ itemLines report.missing

def unusedLines (report : Report) : List String :=
  if report.unused.isEmpty then ["No unused keys in .env file(s)."]
  else s!"UNUSED KEYS ({report.unused.length}):" :: itemLines report.unused

def lines (report : Report) : List String :=
  [s!"Found {report.declarationFiles.length} .env file(s).",
    s!"Parsed .env files: {report.declaredKeys.length} unique key(s) declared.",
    s!"Scanned {report.sourceFiles} source file(s): {report.usedKeys.length} unique key(s) used."] ++
  report.skippedLines ++
  ["", "Used keys in code: " ++ Text.quotedList report.usedKeys,
    "Keys defined in .env files: " ++ Text.quotedList report.declaredKeys] ++
  report.missingLines ++ report.unusedLines

/-- The report as text, every line with its line feed. -/
def plain (report : Report) : String := String.join (report.lines.map (· ++ "\n"))

/-! ## Documents -/

open EnvAudit.Text (Json)

/-- A path in a document; there is none for a path that is no UTF-8. -/
def pathJson? (path : Path) : Option Json := (Text.Utf8.decode? path.bytes).map .text

def textsJson (texts : List String) : Json := .list (texts.map .text)

def skipJson? (skip : Skip) : Option Json := do
  let path ← pathJson? skip.path
  return .object [("path", path), ("kind", .text skip.kind.name), ("message", .text skip.message)]

def json? (report : Report) : Option Json := do
  let root ← pathJson? report.root
  let declarationFiles ← report.declarationFiles.mapM pathJson?
  let skipped ← report.skipped.mapM skipJson?
  return .object
    [("root", root),
      ("declaration_files", .list declarationFiles),
      ("source_files", .number report.sourceFiles),
      ("used_keys", textsJson report.usedKeys),
      ("declared_keys", textsJson report.declaredKeys),
      ("missing", textsJson report.missing),
      ("unused", textsJson report.unused),
      ("skipped", .list skipped)]

/-- Why a report has no document. -/
def noDocument : String := "path contains invalid UTF-8 characters"

/-- The document of a report, if all of its paths are text. -/
def document? (report : Report) : Option String := report.json?.map Json.document

/-- The findings alone, for a report that has no document. -/
def findingsLine (report : Report) : String :=
  "\x7b\"missing\": " ++ Text.quotedList report.missing ++ ", \"unused\": " ++ Text.quotedList report.unused ++ "\x7d"

/-- What is written for a program: the document of the report, or else its findings. -/
def machineReadable (report : Report) : String := (report.document?.getD report.findingsLine) ++ "\n"

end Report

end EnvAudit
