import Restyle.Ignore.Brace
import Restyle.Ignore.Glob

/-!
# Ignore Patterns

The patterns by which a project excludes files.

A pattern is a glob with alternatives in braces. Each exclamation mark in front of it turns its meaning
around, and a number sign at its very beginning makes it a comment. A pattern of which one alternative
is no glob matches nothing, however often it is negated.

## Main definitions

* `Ignore.compile?`: The globs of a pattern, if all of them are.
* `Ignore.accepts`: Whether a pattern matches a path.
* `Ignore.anyAccepts`: Whether one of several patterns does.
-/

namespace Restyle.Ignore

/-- The globs a pattern stands for, if all of them are globs. -/
def compile? (body : Text) : Option (List (List Glob.Token)) :=
  (Brace.expand body).mapM Glob.compile?

/-- Whether a pattern matches a path. -/
def accepts (path pattern : Text) : Bool :=
  if pattern.head? = some '#' then false
  else
    let marks := pattern.takeWhile (· = '!')
    match compile? (pattern.dropWhile (· = '!')) with
    | none => false
    | some globs => globs.any (Glob.accepts · path) != (marks.length % 2 == 1)

/-- Whether one of several patterns matches a path. -/
def anyAccepts (path : Text) (patterns : List Text) : Bool :=
  patterns.any (accepts path)

end Restyle.Ignore
