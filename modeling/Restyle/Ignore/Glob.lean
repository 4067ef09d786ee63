import Restyle.Text

/-!
# Globs

Patterns with wildcards, and the paths they match.

A glob is compiled to tokens. `?` stands for a character and `*` for any run of them, neither of which
crosses a slash; `**` stands for any number of whole components and has to be a component itself.
Brackets hold a class of characters. Where a component begins, a wildcard matches no dot, so a hidden
file has to be asked for by its dot.

Matching tries the shortest run for a wildcard first. When the path runs out while a token still wants
a character, no longer run can help either, and the whole attempt is given up at once. This is why a
match has three outcomes and not two: `exhausted` passes through all wildcards that were tried on the
way, `miss` lets the nearest one try a longer run.

## Main definitions

* `Glob.Token`: What a part of a path is matched with.
* `Glob.compile?`: The tokens of a glob, if it is one.
* `Glob.run`: Matching tokens with a path.
* `Glob.accepts`: Whether tokens match a path.
-/

namespace Restyle.Glob

/-- A member of a character class. -/
inductive Specifier where
  | single (c : Char)
  | range (low high : Char)
  deriving DecidableEq, Repr

/-- What a part of a path is matched with. -/
inductive Token where
  | char (c : Char)
  | anyChar
  | anySequence
  | anyComponents
  | oneOf (members : List Specifier)
  | noneOf (members : List Specifier)
  deriving DecidableEq, Repr

/-- The members of a class as it is written. A dash between two characters makes a range. -/
def specifiers : Text → List Specifier
  | low :: '-' :: high :: rest => .range low high :: specifiers rest
  | c :: rest => .single c :: specifiers rest
  | [] => []

/-- Where a compiler is: outside of a class, where a component may begin, or inside one, which may be
    negated, behind these characters, newest first. -/
inductive Mode where
  | outside (fresh : Bool)
  | inside (negated : Bool) (chars : Text)
  deriving DecidableEq, Repr

/-- The token of a class. -/
def classToken (negated : Bool) (chars : Text) : Token :=
  if negated then .noneOf (specifiers chars) else .oneOf (specifiers chars)

/-- The tokens, newest first, with one more for any components. It says nothing new behind another,
    unless that is the first token. -/
def pushComponents (built : List Token) : List Token :=
  match built with
  | .anyComponents :: _ :: _ => built
  | _ => .anyComponents :: built

/-- The tokens of a glob, after those that are built, newest first. The first character of a class
    may be a closing bracket. -/
def compileFrom (built : List Token) : Mode → Text → Option (List Token)
  | .outside _, [] => some built.reverse
  | .inside _ _, [] => none
  | .inside negated chars, c :: rest =>
    if c = ']' ∧ chars ≠ [] then
      compileFrom (classToken negated chars.reverse :: built) (.outside false) rest
    else compileFrom built (.inside negated (c :: chars)) rest
  | .outside _, '?' :: rest => compileFrom (.anyChar :: built) (.outside false) rest
  | .outside _, '[' :: '!' :: rest => compileFrom built (.inside true []) rest
  | .outside _, '[' :: rest => compileFrom built (.inside false []) rest
  | .outside _, '*' :: '*' :: '*' :: _ => none
  | .outside fresh, '*' :: '*' :: '/' :: rest =>
    if fresh then compileFrom (pushComponents built) (.outside true) rest else none
  | .outside fresh, ['*', '*'] => if fresh then some (pushComponents built).reverse else none
  | .outside _, '*' :: '*' :: _ => none
  | .outside _, '*' :: rest => compileFrom (.anySequence :: built) (.outside false) rest
  | .outside _, c :: rest => compileFrom (.char c :: built) (.outside (c = '/')) rest

/-- The tokens of a glob, if it is one. -/
def compile? (pattern : Text) : Option (List Token) :=
  compileFrom [] (.outside true) pattern

/-- Whether a character is a member of a class. -/
def Specifier.accepts (c : Char) : Specifier → Bool
  | .single d => c == d
  | .range low high => decide (low.toNat ≤ c.toNat ∧ c.toNat ≤ high.toNat)

/-- Whether a token stands for a character. -/
def Token.accepts (c : Char) : Token → Bool
  | .char d => c == d
  | .anyChar => true
  | .oneOf members => members.any (·.accepts c)
  | .noneOf members => !members.any (·.accepts c)
  | .anySequence | .anyComponents => false

/-- Whether a token names the character it stands for, and so may stand for a slash or for a dot at
    the beginning of a component. -/
def Token.isLiteral : Token → Bool
  | .char _ => true
  | _ => false

/-- The outcome of matching: the path is matched, this attempt fails, or all attempts do. -/
inductive Outcome where
  | hit
  | miss
  | exhausted
  deriving DecidableEq, Repr

/-- Let a wildcard stand for longer and longer runs of a path, after the shortest has missed. What
    follows the wildcard is tried behind each, only at the end of a component if the wildcard stands
    for whole components. At the end of the path what follows has the last word. -/
def sweep (components : Bool) (next : Bool → Text → Outcome) : Bool → Text → Outcome
  | fresh, [] => next fresh []
  | fresh, c :: path =>
    if fresh && c == '.' then .miss
    else if components && c != '/' then sweep components next false path
    else if !components && c == '/' then .miss
    else
      match next (c == '/') path with
      | .miss => sweep components next (c == '/') path
      | outcome => outcome

/-- Match tokens with a path. The flag says whether a component begins here. -/
def run : List Token → Bool → Text → Outcome
  | [], _, path => if path = [] then .hit else .miss
  | .anySequence :: tokens, fresh, path =>
    match run tokens fresh path with
    | .miss => sweep false (run tokens) fresh path
    | outcome => outcome
  | .anyComponents :: tokens, fresh, path =>
    match run tokens fresh path with
    | .miss => sweep true (run tokens) fresh path
    | outcome => outcome
  | _ :: _, _, [] => .exhausted
  | token :: tokens, fresh, c :: path =>
    if !token.isLiteral && (c == '/' || (fresh && c == '.')) then .miss
    else if token.accepts c then run tokens (c == '/') path
    else .miss

/-- Whether tokens match a path. -/
def accepts (tokens : List Token) (path : Text) : Bool :=
  run tokens true path = .hit

end Restyle.Glob
