import CryptoAudit.Report.Basic

/-!
# Reports as pages

A self-contained HTML page with one table row for each finding, in the order of the scan. A page is
put together from markup, which is fixed, from numbers and words of the report itself, which are
written as they are, and from text, which is escaped: everything that comes from the audited program
is text, so it can neither add nor change a tag.
-/

namespace CryptoAudit.Report.Page

/-- Writes `replacement` for each `c`. -/
def replaceChar (c : Char) (replacement : String) (s : List Char) : List Char :=
  s.flatMap fun d => if d = c then replacement.toList else [d]

/-- A text without characters that have a meaning in markup. The ampersand comes first, since the
replacements of the others begin with one. -/
def escape (s : List Char) : List Char :=
  replaceChar '"' "&quot;" (replaceChar '>' "&gt;" (replaceChar '<' "&lt;"
    (replaceChar '&' "&amp;" s)))

/-- A part of a page. -/
inductive Part where
  | markup (s : String)
  /-- A number or a word that is not taken from the audited program. -/
  | plain (s : String)
  | text (s : String)
deriving DecidableEq, Inhabited

/-- A part as it is written. -/
def Part.render : Part → List Char
  | .markup s => s.toList
  | .plain s => s.toList
  | .text s => escape s.toList

/-- A part between two pieces of markup. -/
def enclosed (before : String) (content : Part) (after : String) : List Part :=
  [.markup before, content, .markup after]

/-- The style of the page. -/
def style : List String := [
  "  :root \x7b",
  "    --bg: #0d1117; --fg: #c9d1d9; --border: #30363d; --card: #161b22;",
  "    --muted: #8b949e; --accent: #58a6ff; --pass: #3fb950; --fail: #f85149;",
  "  \x7d",
  "  * \x7b margin: 0; padding: 0; box-sizing: border-box; \x7d",
  "  body \x7b font-family: -apple-system, BlinkMacSystemFont, 'Segoe UI', Helvetica, Arial, sans-serif;",
  "    background: var(--bg); color: var(--fg); line-height: 1.5; padding: 2rem; \x7d",
  "  .container \x7b max-width: 1400px; margin: 0 auto; \x7d",
  "  header \x7b display: flex; align-items: center; justify-content: space-between;",
  "    padding: 1.5rem; background: var(--card); border: 1px solid var(--border);",
  "    border-radius: 8px; margin-bottom: 1.5rem; \x7d",
  "  header h1 \x7b font-size: 1.4rem; \x7d",
  "  header h1 span \x7b color: var(--accent); font-weight: 400; \x7d",
  "  .verdict \x7b font-size: 1.2rem; font-weight: 700; padding: 0.4rem 1.2rem; border-radius: 6px; \x7d",
  "  .verdict.pass \x7b background: var(--pass); color: #000; \x7d",
  "  .verdict.fail \x7b background: var(--fail); color: #fff; \x7d",
  "  .summary \x7b display: grid; grid-template-columns: repeat(auto-fit, minmax(140px, 1fr));",
  "    gap: 1rem; margin-bottom: 1.5rem; \x7d",
  "  .stat \x7b background: var(--card); border: 1px solid var(--border);",
  "    border-radius: 8px; padding: 1rem; text-align: center; \x7d",
  "  .stat .count \x7b font-size: 2rem; font-weight: 700; \x7d",
  "  .stat .label \x7b font-size: 0.85rem; color: var(--muted); \x7d",
  "  .stat.danger .count \x7b color: var(--fail); \x7d",
  "  .stat.safe .count \x7b color: var(--pass); \x7d",
  "  table \x7b width: 100%; border-collapse: collapse; background: var(--card);",
  "    border: 1px solid var(--border); border-radius: 8px; overflow: hidden; \x7d",
  "  th \x7b text-align: left; padding: 0.75rem 1rem; border-bottom: 2px solid var(--border);",
  "    font-size: 0.8rem; text-transform: uppercase; color: var(--muted); \x7d",
  "  td \x7b padding: 0.6rem 1rem; border-bottom: 1px solid var(--border);",
  "    font-size: 0.9rem; vertical-align: top; \x7d",
  "  tr.danger td \x7b background: rgba(248, 81, 73, 0.12); \x7d",
  "  tr.safe td \x7b background: rgba(63, 185, 80, 0.08); \x7d",
  "  .trace \x7b display: block; font-size: 0.75rem; color: var(--muted); \x7d",
  "  footer \x7b margin-top: 1.5rem; text-align: center; font-size: 0.8rem; color: var(--muted); \x7d",
  "  .empty \x7b text-align: center; padding: 3rem; color: var(--pass); font-size: 1.2rem; \x7d"]

/-- The page up to its title. -/
def beforeTitle : String :=
  "<!DOCTYPE html>\n<html lang=\"en\">\n<head>\n<meta charset=\"UTF-8\">\n" ++
  "<meta name=\"viewport\" content=\"width=device-width, initial-scale=1.0\">\n" ++
  "<title>FIPS Crypto Usage Report: "

/-- The page from its title to the version of the program. -/
def beforeVersion : String :=
  "</title>\n<style>\n" ++ "\n".intercalate style ++
  "\n</style>\n</head>\n<body>\n<div class=\"container\">\n  <header>\n    <h1>" ++ toolName ++
  " <span>v"

/-- The banner with the result. -/
def banner (pass : Bool) : String :=
  if pass then "</span></h1>\n    <div class=\"verdict pass\">PASS</div>\n  </header>\n\n"
  else "</span></h1>\n    <div class=\"verdict fail\">FAIL</div>\n  </header>\n\n"

/-- One number of the summary. -/
def stat (cssClass : String) (count : Nat) (label : String) : List Part :=
  enclosed ("    <div class=\"" ++ cssClass ++ "\"><div class=\"count\">") (.plain (toString count))
    ("</div><div class=\"label\">" ++ label ++ "</div></div>\n")

/-- The summary. -/
def summary (r : Report) : List Part :=
  [.markup "  <div class=\"summary\">\n"] ++
  stat "stat" r.findings.length "Call sites" ++
  stat "stat danger" r.verdict.nonCompliantFindings "Non-compliant" ++
  stat "stat safe" (r.findings.countP (·.verdict == .validated)) "FIPS provider" ++
  stat "stat" (r.findings.countP (·.hasUnresolved)) "Unresolved" ++
  [.markup "  </div>\n\n  "]

/-- The methods that a value passed through. -/
def trace (f : Finding) : List Part :=
  if f.trace.isEmpty then []
  else enclosed "<span class=\"trace\">" (.text (" \u2192 ".intercalate f.trace)) "</span>"

/-- The class of a row by which it is marked. -/
def rowClass (f : Finding) : String := if f.isNonCompliant then "danger" else "safe"

/-- The row of a finding. -/
def row (f : Finding) : List Part :=
  [.markup ("<tr class=\"" ++ rowClass f ++ "\">\n")] ++
  enclosed "  <td>" (.text f.category) "</td>\n" ++
  enclosed "  <td><code>" (.text f.className) "</code></td>\n" ++
  enclosed "  <td><code>" (.text f.methodSignature) "</code></td>\n" ++
  enclosed "  <td>" (.text f.algorithmLabel) "</td>\n" ++
  [.markup "  <td>", .plain f.provenance.label] ++ trace f ++ [.markup "</td>\n"] ++
  enclosed "  <td>" (.plain f.lineLabel) "</td>\n" ++
  enclosed "  <td>" (.text f.provider) "</td>\n" ++
  enclosed "  <td>" (.plain f.verdict.label) "</td>\n</tr>\n"

/-- The table up to its rows. -/
def beforeRows : String :=
  "<table>\n  <thead>\n    <tr>\n" ++
  "      <th>Category</th><th>Class</th><th>Method</th><th>Algorithm</th>\n" ++
  "      <th>Resolution</th><th>Line</th><th>Provider</th><th>Provider Status</th>\n" ++
  "    </tr>\n  </thead>\n  <tbody>\n    "

/-- The table of findings, or a note that there are none. -/
def content (fs : List Finding) : List Part :=
  if fs.isEmpty then
    [.markup "<div class=\"empty\">No sensitive crypto API usage detected.</div>"]
  else [.markup beforeRows] ++ fs.flatMap row ++ [.markup "\n  </tbody>\n</table>"]

/-- The foot of the page. -/
def footer (r : Report) (stamp : Stamp) : List Part :=
  enclosed "\n\n  <footer>\n    Scanned <strong>" (.text r.target) "</strong> at " ++
  enclosed "" (.plain stamp.time) " (threshold: " ++
  enclosed "" (.plain r.verdict.failThreshold.name) ", fingerprint: <code>" ++
  enclosed "" (.text r.fingerprint) "</code>)\n  </footer>\n</div>\n</body>\n</html>"

/-- The parts of the page. -/
def parts (r : Report) (stamp : Stamp) : List Part :=
  enclosed beforeTitle (.text r.target) beforeVersion ++
  enclosed "" (.plain toolVersion) (banner r.verdict.pass) ++
  summary r ++ content r.findings ++ footer r stamp

/-- The page. -/
def render (r : Report) (stamp : Stamp) : String :=
  String.ofList ((parts r stamp).flatMap Part.render)

end CryptoAudit.Report.Page
