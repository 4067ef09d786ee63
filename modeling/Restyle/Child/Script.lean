import Restyle.Text

/-!
# Scripts

The programs a child process runs.

Each script reads one JSON request from its input to the end and writes one JSON reply: `ok` with what
was asked for, or `error` with a message. The first outcome counts; a library that calls back twice is
answered once. Libraries are found from the directory the process runs in, so the packages of a
project come before any others.

## Main definitions

* `Script.lintFix`: Fixes a text with a style's package.
* `Script.prettier`: Runs the pre-formatter over a text.
-/

namespace Restyle.Child.Script

/-- Lines of a script, each with its newline. -/
def ofLines (lines : List String) : Text :=
  lines.flatMap fun line => line.toList ++ ['\n']

/-- Reading the request and writing the reply. -/
def serve : Text :=
  ofLines [
    "",
    "const serve = (handle) => \x7b",
    "  let input = ''",
    "  process.stdin.setEncoding('utf8')",
    "  process.stdin.on('data', (chunk) => \x7b input += chunk \x7d)",
    "  process.stdin.on('end', () => \x7b",
    "    let settled = false",
    "    const reply = (err, ok) => \x7b",
    "      if (settled) return",
    "      settled = true",
    "      const message = err",
    "        ? \x7b error: String((err && err.message) || err) \x7d",
    "        : \x7b ok: ok \x7d",
    "      process.stdout.write(JSON.stringify(message))",
    "    \x7d",
    "    try \x7b",
    "      handle(JSON.parse(input), reply)",
    "    \x7d catch (e) \x7b",
    "      reply(e)",
    "    \x7d",
    "  \x7d)",
    "\x7d"]

/-- Fixes a text with the package that the request names, whether that reports by a callback or by a
    promise. -/
def lintFix : Text :=
  serve ++ ofLines [
    "",
    "serve((req, reply) => \x7b",
    "  const linter = require(req.package)",
    "  const done = (err, res) => \x7b",
    "    if (err) return reply(err)",
    "    const results = Array.isArray(res) ? res : ((res && res.results) || [])",
    "    reply(null, \x7b",
    "      results: results.map((r) => (\x7b",
    "        output: r && typeof r.output === 'string' ? r.output : null",
    "      \x7d))",
    "    \x7d)",
    "  \x7d",
    "  const pending = linter.lintText(req.text, \x7b fix: true \x7d, done)",
    "  if (pending && typeof pending.then === 'function') \x7b",
    "    pending.then((res) => done(null, res), done)",
    "  \x7d",
    "\x7d)"]

/-- Runs the pre-formatter over a text, whether that answers at once or by a promise. -/
def prettier : Text :=
  serve ++ ofLines [
    "",
    "serve((req, reply) => \x7b",
    "  const prettier = require('prettier')",
    "  Promise.resolve(prettier.format(req.text, req.options))",
    "    .then((formatted) => reply(null, formatted), reply)",
    "\x7d)"]

end Restyle.Child.Script
